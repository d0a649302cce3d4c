import NonlocalExit.Proofs.OuterFrames

/-!
# Frames are closed from the innermost outward

As long as no guard of a frame in `S` is dropped, only panics close frames in `S`, and they close
the innermost of them: what was closed, and then what is still open, is what was open before.
`peels_run`.
-/

namespace NonlocalExit

/-- The greatest number among some frames comes first there. -/
theorem Frame.filter_map_id_erase_greatest {α : Type} {p : Nat → Bool} {id : Nat}
    {fs : List (Frame α)} (hd : fs.Pairwise fun f g => g.id < f.id) (hp : p id)
    (hopen : id ∈ fs.map (·.id)) (hle : ∀ i ∈ (fs.map (·.id)).filter p, i ≤ id) :
    (fs.map (·.id)).filter p = id :: ((erase id fs).map (·.id)).filter p := by
  induction fs with
  | nil => cases hopen
  | cons f fs ih =>
    obtain ⟨hlt, hd⟩ := List.pairwise_cons.1 hd
    by_cases hf : f.id = id
    · rw [erase, if_pos hf, List.map_cons, List.filter_cons_of_pos (by rw [hf, hp]), hf]
    · obtain he | hopen := List.mem_cons.1 hopen
      · exact (hf he.symm).elim
      · obtain ⟨g, hg, rfl⟩ := List.mem_map.1 hopen
        have hout : ¬p f.id = true := by
          intro hin
          have := hle f.id (List.mem_filter.2 ⟨List.mem_cons_self, hin⟩)
          have := hlt g hg
          omega
        rw [List.map_cons, List.filter_cons_of_neg hout] at hle ⊢
        rw [erase, if_neg hf, List.map_cons, List.filter_cons_of_neg hout]
        exact ih hd hopen hle

variable [Declarations]

open Effect

/-- The frame in `S` that an entry says was closed. -/
def Entry.closedAmong? (S : List Nat) : Entry → Option Nat
  | .step (.frameClosed id) => if id ∈ S then some id else none
  | _ => none

/-- The frames in `S` that were closed. -/
def closedAmong (S : List Nat) (es : List Entry) : List Nat := es.filterMap (Entry.closedAmong? S)

theorem closedAmong_append (S : List Nat) (es es' : List Entry) :
    closedAmong S (es ++ es') = closedAmong S es ++ closedAmong S es' := List.filterMap_append

theorem closedAmong_eq_nil {S : List Nat} {es : List Entry}
    (h : ∀ id, .step (.frameClosed id) ∉ es) : closedAmong S es = [] := by
  refine List.filterMap_eq_nil_iff.2 fun e he => ?_
  unfold Entry.closedAmong?
  split
  · exact (h _ he).elim
  · rfl

namespace Machine

/-- Whether the frames in `S` were closed from the innermost outward. -/
structure Peels (S : List Nat) (m m' : Machine) : Prop extends Tidy m m' where
  peeled : (∀ id ∈ S, id < m.thread.frames.nextId) → m.Orderly → SparesGuards S (m.deeds m') →
    m.idsAmong S = (closedAmong S (m.deeds m')).reverse ++ m'.idsAmong S

namespace Peels

variable {S : List Nat} {m m₁ m' : Machine}

/-- What comes second may rely on what was open before what came first. -/
theorem followedBy (h : Peels S m m₁) (ht : Tidy m₁ m')
    (h' : m.Orderly → (∀ id ∈ m₁.idsAmong S, id ∈ m.idsAmong S) → Peels S m₁ m') :
    Peels S m m' := by
  refine ⟨h.toTidy.trans ht, fun hS ho hs => ?_⟩
  have hd := deeds_trans h.toGrows.adds ht.toGrows.adds
  rw [hd, sparesGuards_append] at hs
  have hp := h.peeled hS ho hs.2
  have hsub : ∀ id ∈ m₁.idsAmong S, id ∈ m.idsAmong S := fun id hid =>
    hp ▸ List.mem_append_right _ hid
  have hp' := (h' ho hsub).peeled (fun id hid => Nat.lt_of_lt_of_le (hS id hid) h.nextId)
    (h.orderly ho) hs.1
  rw [hp, hp', hd, closedAmong_append, List.reverse_append, List.append_assoc]

theorem trans (h : Peels S m m₁) (h' : Peels S m₁ m') : Peels S m m' :=
  h.followedBy h'.toTidy fun _ _ => h'

theorem of_dropped (h : Tidy m m') (hd : ¬SparesGuards S (m.deeds m')) : Peels S m m' :=
  ⟨h, fun _ _ hs => (hd hs).elim⟩

/-- A step that closes nothing. -/
theorem of_quiet (ht : Tidy m m') (hd : ∀ id, .step (.frameClosed id) ∉ m.deeds m')
    (hi : (∀ id ∈ S, id < m.thread.frames.nextId) → m'.idsAmong S = m.idsAmong S) :
    Peels S m m' := by
  refine ⟨ht, fun hS _ _ => ?_⟩
  rw [closedAmong_eq_nil hd, hi hS]
  rfl

theorem of_journal_eq (ht : Tidy m m') (hj : m'.shared.journal = m.shared.journal)
    (hi : m'.openIds = m.openIds) : Peels S m m' := by
  refine of_quiet ht (fun id hid => ?_) fun _ => idsAmong_congr hi
  rw [deeds_of_journal_eq hj] at hid
  cases hid

theorem refl (m : Machine) : Peels S m m := of_journal_eq (.refl m) rfl rfl

theorem note {e : Entry} (he : ∀ id, e ≠ .step (.frameClosed id)) (m : Machine) :
    Peels S m (m.note e) := by
  refine of_quiet (.note e m) (fun id hid => ?_) fun _ => rfl
  rw [deeds_note] at hid
  exact he id (List.mem_singleton.1 hid).symm

theorem withHeld {held held' : List (List Guard)} (h : Peels S (m.withHeld held) m') :
    Peels S m (m'.withHeld held') :=
  ⟨((Tidy.withHeld _ _).trans h.toTidy).trans (.withHeld _ _),
    fun hS ho => h.peeled hS (ho.withHeld _)⟩

theorem starting (m : Machine) (c : Cleanup) : Peels S m (m.starting c) := by
  unfold Machine.starting
  split
  · exact (note (by exact nofun) _).trans (note (by exact nofun) _)
  · exact note (by exact nofun) _

theorem opened (m : Machine) : Peels S m m.opened := by
  refine of_quiet (.opened m) (fun id hid => ?_) fun hS => ?_
  · rw [deeds_opened] at hid
    cases List.mem_singleton.1 hid
  · exact List.filter_cons_of_neg (p := fun i => decide (i ∈ S))
      fun h => Nat.lt_irrefl _ (hS _ (of_decide_eq_true h))

theorem rooted (m : Machine) : Peels S m m.rooted := by
  unfold Machine.rooted
  split
  · exact opened m
  · exact refl m

theorem withMark (id : Nat) (mark : Option Nat) (m : Machine) : Peels S m (m.withMark id mark) :=
  of_journal_eq (.withMark id mark m) rfl (map_id_withMark mark)

theorem add {c : Cleanup} {s : FrameStack Cleanup} (hs : m.thread.frames.add? c = some s) :
    Peels S m (m.withFrames s) := by
  have ht := Tidy.add hs
  obtain ⟨f, fs, hf, _, rfl⟩ := FrameStack.add?_eq_some.1 hs
  refine of_journal_eq ht rfl ?_
  unfold openIds
  rw [hf]
  rfl

theorem started (id : Nat) (cs : List Cleanup) (c : Cleanup) (m : Machine) :
    Peels S m ((m.withPending id cs).starting c) :=
  (of_journal_eq (.withPending id cs m) rfl (map_id_withPending cs)).trans (starting _ c)

/-- The frame that is closed is outside `S`, or the innermost one in `S`. -/
theorem closed {id : Nat} (hid : id ∈ S → ∀ i ∈ m.idsAmong S, i ≤ id)
    (hopen : id ∈ m.openIds) : Peels S m (m.closed id) := by
  refine ⟨.closed id m, fun _ ho _ => ?_⟩
  rw [deeds_closed]
  by_cases hmem : id ∈ S
  · rw [show closedAmong S [.step (.frameClosed id)] = [id] by
      simp [closedAmong, Entry.closedAmong?, hmem]]
    exact Frame.filter_map_id_erase_greatest ho.frames.descending (by simpa using hmem) hopen
      (hid hmem)
  · rw [show closedAmong S [.step (.frameClosed id)] = [] by
      simp [closedAmong, Entry.closedAmong?, hmem]]
    exact (Frame.filter_map_id_erase (by simpa using hmem)).symm

theorem ofThread (hg : Grows m.threadStarted m') : Peels S m { m' with thread := m.thread } := by
  refine ⟨.ofThread hg, fun _ ho _ => ?_⟩
  rw [deeds_ofThread ho.number hg.adds]
  rfl

theorem primitives (S : List Nat) : Primitives (Peels S) where
  refl := refl
  trans := trans
  steady h := h.toSteady
  aside h := of_quiet (.aside h) (fun id hid => deeds_of_aside h _ hid)
    fun _ => idsAmong_congr (by rw [h.frames])
  enteredFrame m _ := note (by exact nofun) m
  intercepted m _ := note (by exact nofun) m
  opened m _ := opened m
  registered m _ _ _ _ hs := by
    have hroot : Peels S m m.serialTaken.rooted :=
      (of_journal_eq (.serialTaken m) rfl rfl).trans (rooted _)
    exact (hroot.trans (add hs)).trans (note (by exact nofun) _)
  registeredLate m c _ _ :=
    ((of_journal_eq (.serialTaken m) rfl rfl).trans (note (by exact nofun) _)).trans (starting _ c)
  tokenTaken m := of_journal_eq (.tokenTaken m) rfl rfl
  block h := h.withHeld
  dropped m _ _ _ _ := (refl _).withHeld
  entered m _ _ := ((opened m).trans (note (by exact nofun) _)).trans (refl _).withHeld
  released m _ _ _ _ := (refl _).withHeld
  recovery {m m'} _ h := by
    have henter : Peels S m m.recoveryEntered :=
      (((of_journal_eq (.tokenTaken m) rfl rfl).trans (rooted _)).trans (withMark _ _ _)).trans
        (of_journal_eq (.withRecovering _ _) rfl rfl)
    have hleave : Peels S m' ((m'.withMark m.rootId m.tokenTaken.markFound).withRecovering
        m.thread.recovering) :=
      (withMark _ _ _).trans (of_journal_eq (.withRecovering _ _) rfl rfl)
    exact (henter.trans h).trans hleave
  thread := ofThread

end Peels

end Machine

/-! ## Jobs -/

/-- Whether a job that is asked to close a frame in `S` is asked to close the innermost one. -/
def Job.Peels (S : List Nat) (m : Machine) : Job → Prop
  | .block _ | .walk _ => True
  | .close id => id ∈ S → ∀ i ∈ m.idsAmong S, i ≤ id
  | .closeAbove base => ∀ i ∈ m.idsAmong S, base.any (i ≤ ·)

section Jobs

open Machine

variable {S : List Nat} {exec : Executor} {m m' : Machine} {o : Option Transfer}
  (T : ∀ j, Obeys (.ofRel Tidy) (exec j))
  (H : ∀ j m o m', j.Peels S m → ((exec j).run m).Leaves o m' → Peels S m m')
include T H

theorem peels_leaveFrame (id : Nat) : Obeys (.ofRel (Peels S)) (leaveFrame exec id) := by
  intro m o m' h
  have ht : Tidy m m' := Tidy.primitives.obeys_leaveFrame T id _ _ _ h
  rw [run_leaveFrame] at h
  by_cases hid : id ∈ S
  · refine Peels.of_dropped ht fun hs => hs id hid ?_
    have hg : Tidy (m.note (.log (.leftFrame id))) m' := T _ _ _ _ h
    rw [deeds_trans (.note _ m) hg.toGrows.adds, deeds_note]
    exact List.mem_append_right _ List.mem_cons_self
  · exact (Peels.note (by exact nofun) m).trans (H (.close id) _ _ _ (fun h => (hid h).elim) h)

theorem peels_closeStep {id : Nat} (hid : id ∈ S → ∀ i ∈ m.idsAmong S, i ≤ id)
    (h : ((closeStep exec id).run m).Leaves o m') : Peels S m m' := by
  have HB : ∀ b, Obeys (.ofRel (Peels S)) (exec (.block b)) := fun b m o m' => H _ m o m' trivial
  obtain h | ⟨ht, h⟩ := Primitives.leaves_of_torn (Peels.refl m) (run_closeStep exec m id) h
  · exact h
  · cases hf : Frame.find? id m.thread.frames.frames with
    | none => rw [hf] at h; cases h; exact .refl m
    | some f =>
      rw [hf] at h
      dsimp only at h
      cases hp : f.pending with
      | nil =>
        rw [hp] at h
        cases h
        refine .closed hid ?_
        rw [← Frame.id_of_find? hf]
        exact List.mem_map_of_mem (Frame.mem_of_find? hf)
      | cons c rest =>
        rw [hp] at h
        have hs : Peels S m ((m.withPending id rest).starting c) := .started id rest c m
        obtain ⟨_, m₁, hc, h⟩ | ⟨t, hc, _⟩ := leaves_bind.1 h
        · have hc' := hs.trans (Primitives.obeys_startCleanup HB c (leaves_of_returned hc))
          refine hc'.followedBy (T _ _ _ _ h) fun _ hsub => ?_
          exact H (.close id) _ _ _ (fun hmem i hi => hid hmem i (hsub i hi)) h
        · exact hs.trans (Primitives.obeys_startCleanup HB c (leaves_of_unwound hc))

theorem peels_closeAboveStep {base : Option Nat} (hb : ∀ i ∈ m.idsAmong S, base.any (i ≤ ·))
    (h : ((closeAboveStep exec base).run m).Leaves o m') : Peels S m m' := by
  obtain h | ⟨ht, h⟩ := Primitives.leaves_of_torn (Peels.refl m) (run_closeAboveStep exec m base) h
  · exact h
  · split at h
    · cases h; exact .refl m
    · rename_i f fs hf
      split at h
      · cases h; exact .refl m
      · rename_i hbase
        have hclose : (Job.close f.id).Peels S m := by
          refine fun hmem => (hbase (hb f.id ?_)).elim
          unfold Machine.idsAmong
          rw [hf]
          exact List.mem_filter.2 ⟨List.mem_cons_self, by simpa using hmem⟩
        obtain ⟨_, m₁, hc, h⟩ | ⟨t, hc, _⟩ := leaves_bind.1 h
        · refine (H (.close f.id) _ _ _ hclose (leaves_of_returned hc)).followedBy (T _ _ _ _ h)
            fun _ hsub => ?_
          exact H (.closeAbove base) _ _ _ (fun i hi => hb i (hsub i hi)) h
        · exact H (.close f.id) _ _ _ hclose (leaves_of_unwound hc)

/-- A panic closes the innermost frame. -/
theorem peels_walkStep (code : ErrorCode) : Obeys (.ofRel (Peels S)) (walkStep exec code) := by
  intro m o m' h
  obtain h | ⟨ht, h⟩ := Primitives.leaves_of_torn (Peels.refl m) (run_walkStep exec m code) h
  · exact h
  · split at h
    · cases h; exact .refl m
    · rename_i f fs hf
      split at h
      · cases h; exact .refl m
      · have htidy : Tidy (m.note (.step (.passed f.id))) m' := by
          have := Tidy.primitives.toComposes
          exact ((T _).bind fun _ => T _) _ _ _ h
        refine (Peels.note (by exact nofun) m).followedBy htidy fun ho _ => ?_
        have hclose : (Job.close f.id).Peels S (m.note (.step (.passed f.id))) := by
          intro _ i hi
          have hle := ho.le_innermostId (List.mem_filter.1 hi).1
          unfold Machine.innermostId FrameStack.innermost? at hle
          rw [hf] at hle
          exact of_decide_eq_true hle
        obtain ⟨_, m₁, hc, h⟩ | ⟨t, hc, _⟩ := leaves_bind.1 h
        · exact (H (.close f.id) _ _ _ hclose (leaves_of_returned hc)).trans
            (H (.walk code) _ _ _ trivial h)
        · exact H (.close f.id) _ _ _ hclose (leaves_of_unwound hc)

theorem peels_runBody (status : Int32) (b : Block) :
    Obeys (.ofRel (Peels S)) (runBody exec (threadBody exec status b)) := by
  have P := Peels.primitives S
  have := P.toComposes
  intro m o m' h
  obtain h | ⟨ht, h⟩ := Primitives.leaves_of_torn (Peels.refl m) (run_runBody exec m _) h
  · exact h
  · obtain ⟨res, m₁, hb, h⟩ | ⟨t, hb, _⟩ := leaves_bind.1 h
    · have hbody : Peels S m.sessionEntered m₁ :=
        (P.obeys_threadBody status fun m o m' => H (.block b) m o m' trivial).catchUnwind _ _ _
          (leaves_of_returned hb)
      refine ((P.sessionEntered ht).trans hbody).followedBy (tidy_endSession T _ _ _ _ _ _ h)
        fun ho hsub => ?_
      have hbase : ∀ i ∈ m₁.idsAmong S, m.innermostId.any (i ≤ ·) := fun i hi =>
        ho.le_innermostId (List.mem_filter.1 (hsub i hi)).1
      have hend : Obeys (.ofRel (Peels S)) (closeSession (!m.thread.initialised) >>= fun _ =>
          statusOf res) := (P.obeys_closeSession _).bind fun _ => P.obeys_statusOf _
      obtain ⟨_, m₂, hc, h⟩ | ⟨t, hc, _⟩ := leaves_bind.1 h
      · exact (H (.closeAbove _) _ _ _ hbase (leaves_of_returned hc)).trans (hend _ _ _ h)
      · exact H (.closeAbove _) _ _ _ hbase (leaves_of_unwound hc)
    · cases (leaves_catchUnwind.1 (leaves_of_unwound hb)).2

theorem peels_step (j : Job) (hj : j.Peels S m) (h : ((j.step exec).run m).Leaves o m') :
    Peels S m m' := by
  have P := Peels.primitives S
  cases j with
  | block b =>
    have G := P.governs (fun b m o m' => H (.block b) m o m' trivial) (peels_leaveFrame T H)
      (fun code m o m' => H (.walk code) m o m' trivial) (peels_runBody T H)
    exact P.obeys_asBlock (peels_leaveFrame T H) (G.performAll b) _ _ _ h
  | close id => exact peels_closeStep T H hj h
  | closeAbove base => exact peels_closeAboveStep T H hj h
  | walk code => exact peels_walkStep T H code _ _ _ h

end Jobs

/-- Whatever is run, frames are closed from the innermost outward, as long as their guards are
spared. -/
theorem peels_run (S : List Nat) : ∀ n j m o m', j.Peels S m →
    ((Job.run n j).run m).Leaves o m' → m.Peels S m'
  | 0, _, _, _, _, _, h => (Effect.not_leaves_halt h).elim
  | n + 1, j, _, _, _, hj, h => peels_step (Tidy.primitives.obeys n) (peels_run S n) j hj h

end NonlocalExit
