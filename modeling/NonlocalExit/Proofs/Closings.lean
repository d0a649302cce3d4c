import NonlocalExit.Proofs.Guards
import NonlocalExit.Proofs.OuterFrames
import NonlocalExit.Proofs.Resuming

/-!
# How frames are closed for an exception

An exception on its way has pieces of the program run for it: cleanups, clauses, completion clauses
and the throw hook.  `Activation.Completes` says that such a piece ends as it should and leaves
alone what was there before.

`Closes`, `ClosesAbove` and `Drops` say which cleanups are run when frames are closed and all
cleanups complete, and `Clears` that those are the ones that waited, once each and newest first.
-/

namespace NonlocalExit

variable [Declarations]

open Effect Machine

namespace Machine

/-- Whether the same frames below a number are open, with the same cleanups waiting in them under
those that were registered since. -/
structure StillWaits (bound : Nat) (m m' : Machine) : Prop where
  ids : m'.idsAmong (List.range bound) = m.idsAmong (List.range bound)
  waiting : ∀ id ∈ m.openIds, id < bound → ∃ added,
    Frame.waiting id m'.thread.frames.frames = added ++ Frame.waiting id m.thread.frames.frames ∧
      added.map (·.serial) = registeredIn id (stepsIn (m.deeds m'))

/-- Whether nothing has happened to the frames below a number, and the record is the same. -/
structure Spared (bound : Nat) (m m' : Machine) : Prop extends Tidy m m' where
  current : m'.thread.current = m.thread.current
  spares : SparesGuards (List.range bound) (m.deeds m')
  passes : PassesNone (List.range bound) (m.deeds m')
  still : m.Orderly → bound ≤ m.thread.frames.nextId → m.StillWaits bound m'

theorem exists_find? {m : Machine} {id : Nat} (h : id ∈ m.openIds) :
    ∃ f, Frame.find? id m.thread.frames.frames = some f := by
  obtain ⟨f, hf, hid⟩ := List.mem_map.1 h
  cases hfind : Frame.find? id m.thread.frames.frames with
  | none => exact (Frame.find?_eq_none.1 hfind f hf hid).elim
  | some g => exact ⟨g, rfl⟩

namespace StillWaits

variable {bound : Nat} {m m₁ m' : Machine}

theorem of_keptAmong (h : m.KeptAmong (List.range bound) m') : m.StillWaits bound m' := by
  refine ⟨h.ids, fun id hopen hlt => ?_⟩
  obtain ⟨f, hf⟩ := exists_find? hopen
  obtain ⟨added, hf', hs⟩ := h.frame id (List.mem_range.2 hlt) f hf
  refine ⟨added, ?_, hs⟩
  rw [Frame.waiting_of_find? hf, Frame.waiting_of_find? hf']

theorem openIds (h : m.StillWaits bound m') {id : Nat} (hlt : id < bound) :
    id ∈ m'.openIds ↔ id ∈ m.openIds := by
  have hmem : ∀ m : Machine, id ∈ m.idsAmong (List.range bound) ↔ id ∈ m.openIds := fun m =>
    ⟨fun h => (List.mem_filter.1 h).1, fun h => List.mem_filter.2 ⟨h, by simpa using hlt⟩⟩
  rw [← hmem m', h.ids, hmem m]

theorem trans (h : m.StillWaits bound m₁) (h' : m₁.StillWaits bound m') (hg : Grows m m₁)
    (hg' : Grows m₁ m') : m.StillWaits bound m' := by
  refine ⟨h'.ids.trans h.ids, fun id hopen hlt => ?_⟩
  obtain ⟨added, hw, hs⟩ := h.waiting id hopen hlt
  obtain ⟨added', hw', hs'⟩ := h'.waiting id ((h.openIds hlt).2 hopen) hlt
  refine ⟨added' ++ added, by rw [hw', hw, List.append_assoc], ?_⟩
  rw [List.map_append, hs, hs', deeds_trans hg.adds hg'.adds, stepsIn_append, registeredIn_append]

theorem mono (h : m.StillWaits bound m') {less : Nat} (hle : less ≤ bound) :
    m.StillWaits less m' := by
  refine ⟨?_, fun id hopen hlt => h.waiting id hopen (Nat.lt_of_lt_of_le hlt hle)⟩
  have hids : ∀ m : Machine, m.idsAmong (List.range less) =
      (m.idsAmong (List.range bound)).filter (· ∈ List.range less) := by
    intro m
    unfold idsAmong
    rw [List.filter_filter]
    refine List.filter_congr fun id _ => ?_
    by_cases hid : id < less
    · simp [hid, Nat.lt_of_lt_of_le hid hle]
    · simp [hid]
  rw [hids m', h.ids, ← hids m]

end StillWaits

namespace Spared

variable {bound : Nat} {m m₁ m' : Machine}

theorem of_keeps (h : Keeps (List.range bound) m m') (hc : m'.thread.current = m.thread.current)
    (hs : SparesGuards (List.range bound) (m.deeds m'))
    (hp : PassesNone (List.range bound) (m.deeds m')) : Spared bound m m' := by
  refine ⟨h.toTidy, hc, hs, hp, fun ho hb => .of_keptAmong ?_⟩
  exact (h.kept ⟨fun id hid => Nat.lt_of_lt_of_le (List.mem_range.1 hid) hb, ho, hs, .inr hp⟩).1

theorem trans (h : Spared bound m m₁) (h' : Spared bound m₁ m') : Spared bound m m' := by
  have hd := deeds_trans h.toGrows.adds h'.toGrows.adds
  refine ⟨h.toTidy.trans h'.toTidy, h'.current.trans h.current, ?_, ?_, fun ho hb => ?_⟩
  · rw [hd]
    exact sparesGuards_append.2 ⟨h'.spares, h.spares⟩
  · rw [hd]
    exact passesNone_append.2 ⟨h'.passes, h.passes⟩
  · exact (h.still ho hb).trans (h'.still (h.orderly ho) (Nat.le_trans hb h.nextId)) h.toGrows
      h'.toGrows

theorem mono (h : Spared bound m m') {less : Nat} (hle : less ≤ bound)
    (hb : bound ≤ m.thread.frames.nextId) : Spared less m m' := by
  have hsub : ∀ id ∈ List.range less, id ∈ List.range bound := fun id hid =>
    List.mem_range.2 (Nat.lt_of_lt_of_le (List.mem_range.1 hid) hle)
  exact ⟨h.toTidy, h.current, fun id hid => h.spares id (hsub id hid),
    fun id hid => h.passes id (hsub id hid), fun ho _ => (h.still ho hb).mono hle⟩

theorem of_aside (h : Aside m m') (hc : m'.thread.current = m.thread.current) :
    Spared bound m m' := by
  have hd := deeds_of_aside h
  exact of_keeps ((Keeps.primitives _).aside h) hc (fun id _ he => hd _ he) fun id _ he => hd _ he

theorem note {e : Entry} (he : e.IsPlain) (m : Machine) : Spared bound m (m.note e) :=
  of_aside (.note he m) rfl

theorem refl (m : Machine) : Spared bound m m := of_aside (.refl m) rfl

/-- A step that notes nothing and leaves the waiting cleanups as they are. -/
theorem of_journal_eq (ht : Tidy m m') (hj : m'.shared.journal = m.shared.journal)
    (hc : m'.thread.current = m.thread.current) (hi : m'.openIds = m.openIds)
    (hw : ∀ id, Frame.waiting id m'.thread.frames.frames =
      Frame.waiting id m.thread.frames.frames) : Spared bound m m' := by
  have hd : m.deeds m' = [] := deeds_of_journal_eq hj
  refine ⟨ht, hc, ?_, ?_, fun _ _ => ⟨idsAmong_congr hi, fun id _ _ => ⟨[], hw id, ?_⟩⟩⟩
  · rw [hd]; simp [SparesGuards]
  · rw [hd]; simp [PassesNone]
  · rw [hd]; rfl

theorem withHeld (held : List (List Guard)) (m : Machine) : Spared bound m (m.withHeld held) :=
  of_journal_eq (.withHeld held m) rfl rfl rfl fun _ => rfl

theorem withRecovering (rs : List Recovery) (m : Machine) :
    Spared bound m (m.withRecovering rs) :=
  of_journal_eq (.withRecovering rs m) rfl rfl rfl fun _ => rfl

theorem withMark (id : Nat) (mark : Option Nat) (m : Machine) :
    Spared bound m (m.withMark id mark) :=
  of_journal_eq (.withMark id mark m) rfl rfl (map_id_withMark mark) fun _ =>
    Frame.waiting_withMark

theorem leaving {id : Nat} (hid : bound ≤ id) (m : Machine) : Spared bound m (m.leaving id) := by
  have hd : m.deeds (m.leaving id) = [.log (.leftFrame id)] := deeds_note m _
  refine of_keeps (.note (by simp [Entry.IsNeutral]) m) rfl ?_ ?_
  · rw [hd]
    intro i hi he
    cases List.mem_singleton.1 he
    exact Nat.lt_irrefl _ (Nat.lt_of_lt_of_le (List.mem_range.1 hi) hid)
  · rw [hd]
    simp [PassesNone]

theorem closed {id : Nat} (hid : bound ≤ id) (m : Machine) : Spared bound m (m.closed id) := by
  have hd := deeds_closed m id
  refine of_keeps (.closed (by simpa using hid) m) rfl ?_ ?_
  · rw [hd]; simp [SparesGuards]
  · rw [hd]; simp [PassesNone]

theorem started {id : Nat} (hid : bound ≤ id) (cs : List Cleanup) (c : Cleanup) (m : Machine) :
    Spared bound m ((m.withPending id cs).starting c) := by
  obtain ⟨es, hes, hhandler⟩ := deeds_starting (m.withPending id cs) c
  have hd : m.deeds ((m.withPending id cs).starting c) = es ++ [.step (.started c.serial)] := hes
  refine of_keeps (.started (by simpa using hid) cs c m) ?_ ?_ ?_
  · unfold starting
    split <;> rfl
  · rw [hd]
    intro i _ he
    rcases List.mem_append.1 he with he | he
    · obtain ⟨a, he⟩ := hhandler _ he
      cases he
    · cases List.mem_singleton.1 he
  · rw [hd]
    intro i _ he
    rcases List.mem_append.1 he with he | he
    · obtain ⟨a, he⟩ := hhandler _ he
      cases he
    · cases List.mem_singleton.1 he

end Spared

end Machine

/-! ## Services -/

/-- What a piece of the program is run for, on the way of an exception. -/
inductive Service
  | cleanup
  /-- The clause of a try block that the exception goes through. -/
  | clause
  | completion
  | hook
  deriving DecidableEq

/-- How the piece is to end: a clause throws the exception again. -/
def Service.ending : Service → Ending Unit
  | clause => .unwound .rethrown
  | _ => .returned ()

/-- Whether a piece ends as it should, with the record as it was before, drops no guard that was
there before, and has no panic come past the frames that were open before. -/
structure Activation.Completes (s : Service) (a : Activation) (m : Machine) : Prop where
  ending : a.run = ⟨s.ending, m⟩
  current : m.thread.current = a.machine.thread.current
  spares : SparesGuards (List.range a.machine.thread.frames.nextId) (a.machine.deeds m)
  passes : PassesNone (List.range a.machine.thread.frames.nextId) (a.machine.deeds m)

namespace Activation.Completes

variable {s : Service} {n : Nat} {b : Block} {m m' : Machine}

theorem leaves {a : Activation} (h : a.Completes s m') : ∃ o, a.run.Leaves o m' := by
  rw [h.ending]
  cases s with
  | clause => exact ⟨_, .unwound _ _⟩
  | cleanup => exact ⟨_, .returned _ _⟩
  | completion => exact ⟨_, .returned _ _⟩
  | hook => exact ⟨_, .returned _ _⟩

theorem spared (h : Completes s ⟨n, .job (.block b), m⟩ m') :
    Spared m.thread.frames.nextId m m' := by
  obtain ⟨o, hl⟩ := h.leaves
  exact .of_keeps (keeps_run _ n (.block b) m o m' trivial hl) h.current h.spares h.passes

end Activation.Completes

/-! ## Closing a frame -/

/-- How a frame is closed: the cleanups that are run meanwhile, one after another. -/
inductive Closes (id : Nat) : Machine → List Cleanup → Machine → Prop
  | absent {m} (h : Frame.find? id m.thread.frames.frames = none) : Closes id m [] m
  | closed {m f} (hf : Frame.find? id m.thread.frames.frames = some f) (hp : f.pending = []) :
    Closes id m [] (m.closed id)
  | cleanup {m m₁ m' f c cs ds k} (hf : Frame.find? id m.thread.frames.frames = some f)
    (hp : f.pending = c :: cs)
    (hc : Activation.Completes .cleanup
      ⟨k, .job (.block c.body), (m.withPending id cs).starting c⟩ m₁)
    (h : Closes id m₁ ds m') : Closes id m (c :: ds) m'

/-- Whether the cleanups that waited in a frame are among some others in the same order, and besides
them there are only such as were registered in the frame since. -/
structure Clears (id : Nat) (m m' : Machine) (cs : List Cleanup) : Prop where
  inOrder : (Frame.waiting id m.thread.frames.frames).Sublist cs
  once : ∃ added : List Nat, added.Sublist (registeredIn id (stepsIn (m.deeds m'))) ∧
    (cs.map (·.serial)).Perm (added ++ (Frame.waiting id m.thread.frames.frames).map (·.serial))

namespace Clears

variable {id bound : Nat} {m m₁ m' : Machine} {cs : List Cleanup}

theorem of_waiting_nil (h : Frame.waiting id m.thread.frames.frames = []) : Clears id m m' [] := by
  refine ⟨h ▸ List.nil_sublist _, [], List.nil_sublist _, ?_⟩
  rw [h]
  exact .nil

/-- Registrations that come later do not matter. -/
theorem mono (h : Clears id m m₁ cs) (hg : Grows m m₁) (hg' : Grows m₁ m') :
    Clears id m m' cs := by
  obtain ⟨added, hs, hp⟩ := h.once
  refine ⟨h.inOrder, added, ?_, hp⟩
  rw [deeds_trans hg.adds hg'.adds, stepsIn_append, registeredIn_append]
  exact hs.trans (List.sublist_append_right _ _)

/-- The cleanups that wait in a frame that is spared for a while are run after that. -/
theorem after (h : Clears id m₁ m' cs) (hs : m.StillWaits bound m₁) (hopen : id ∈ m.openIds)
    (hlt : id < bound) (hg : Grows m m₁) (hg' : Grows m₁ m') : Clears id m m' cs := by
  obtain ⟨new, hw, hnew⟩ := hs.waiting id hopen hlt
  obtain ⟨added, hsub, hp⟩ := h.once
  refine ⟨.trans ?_ h.inOrder, added ++ new.map (·.serial), ?_, ?_⟩
  · rw [hw]
    exact List.sublist_append_right _ _
  · rw [deeds_trans hg.adds hg'.adds, stepsIn_append, registeredIn_append, hnew]
    exact hsub.append (.refl _)
  · rw [hw, List.map_append, ← List.append_assoc] at hp
    exact hp

end Clears

namespace Closes

variable {id : Nat} {m m' : Machine} {cs : List Cleanup}

/-- Whatever every run keeps is kept. -/
theorem obeys {r : Machine → Machine → Prop} (P : AllPrimitives r) (h : Closes id m cs m')
    (ht : m.thread.torn = false) : r m m' := by
  induction h with
  | absent h => exact P.refl _
  | closed hf hp => exact P.closed _ _ _ ht hf hp
  | cleanup hf hp hc h ih =>
    obtain ⟨o, hl⟩ := hc.leaves
    have hrun := P.trans (P.started _ _ _ _ _ ht hf hp) (P.obeys_run hl)
    exact P.trans hrun (ih ((P.steady hrun).torn.trans ht))

theorem spared {bound : Nat} (h : Closes id m cs m') (hid : bound ≤ id)
    (hb : bound ≤ m.thread.frames.nextId) : Spared bound m m' := by
  induction h with
  | absent h => exact .refl _
  | closed hf hp => exact .closed hid _
  | cleanup hf hp hc h ih =>
    rename_i m m₁ m' f c cs ds k
    have hstart := Spared.started hid cs c m
    have hrun := hstart.trans (hc.spared.mono (Nat.le_trans hb hstart.nextId) (Nat.le_refl _))
    exact hrun.trans (ih (Nat.le_trans hb hrun.nextId))

/-- A frame that is closed is cleared. -/
theorem clears (h : Closes id m cs m') (ho : m.Orderly) : Clears id m m' cs := by
  induction h with
  | absent h =>
    refine .of_waiting_nil ?_
    rw [Frame.waiting, h]
    rfl
  | closed hf hp => exact .of_waiting_nil (by rw [Frame.waiting_of_find? hf, hp])
  | cleanup hf hp hc h ih =>
    rename_i m m₁ m' f c cs ds k
    have hfind : Frame.find? id ((m.withPending id cs).starting c).thread.frames.frames =
        some (f.withPending cs) := by
      have hself := @find?_withPending_self _ m id cs
      rw [hf] at hself
      unfold starting
      split <;> exact hself
    have hmem : f.withPending cs ∈ ((m.withPending id cs).starting c).thread.frames.frames :=
      Frame.mem_of_find? hfind
    have hopen : id ∈ ((m.withPending id cs).starting c).openIds :=
      List.mem_map.2 ⟨_, hmem, Frame.id_of_find? hfind⟩
    have hstart : Spared id m ((m.withPending id cs).starting c) :=
      .started (Nat.le_refl _) cs c m
    have ho₁ := hstart.orderly ho
    have hlt : id < ((m.withPending id cs).starting c).thread.frames.nextId := by
      have := ho₁.frames.fresh _ hmem
      rwa [Frame.id_of_find? hfind] at this
    have hrest : Spared id m₁ m' := h.spared (Nat.le_refl _)
      (Nat.le_of_lt (Nat.lt_of_lt_of_le hlt hc.spared.nextId))
    have hclears := (ih (hc.spared.orderly ho₁)).after (hc.spared.still ho₁ (Nat.le_refl _)) hopen
      hlt hc.spared.toGrows hrest.toGrows
    have hw : Frame.waiting id m.thread.frames.frames =
        c :: Frame.waiting id ((m.withPending id cs).starting c).thread.frames.frames := by
      rw [Frame.waiting_of_find? hf, Frame.waiting_of_find? hfind, hp]
      rfl
    obtain ⟨added, hsub, hperm⟩ := hclears.once
    refine ⟨hw ▸ hclears.inOrder.cons_cons c, added, ?_, ?_⟩
    · rw [deeds_trans hstart.toGrows.adds (hc.spared.toGrows.trans hrest.toGrows).adds,
        stepsIn_append, registeredIn_append]
      exact hsub.trans (List.sublist_append_left _ _)
    · rw [hw, List.map_cons, List.map_cons]
      exact (hperm.cons _).trans List.perm_middle.symm

end Closes

/-- When all cleanups complete, a frame comes to be closed. -/
theorem close_completes {n id : Nat} {m : Machine} (ht : m.thread.torn = false)
    (hd : ∀ d, StartsCleanup ⟨n, .job (.close id), m⟩ d → ∃ m', d.Completes .cleanup m') :
    Activation.RunsOut ⟨n, .job (.close id), m⟩ ∨
      ∃ cs m', (Job.run n (.close id)).run m = ⟨.returned (), m'⟩ ∧ Closes id m cs m' := by
  induction n generalizing m with
  | zero => exact .inl ⟨m, rfl⟩
  | succ n ih =>
    cases hf : Frame.find? id m.thread.frames.frames with
    | none => exact .inr ⟨[], m, closeStep_absent ht hf, .absent hf⟩
    | some f =>
      cases hp : f.pending with
      | nil => exact .inr ⟨[], _, closeStep_empty ht hf hp, .closed hf hp⟩
      | cons c cs =>
        have hstep : (Job.run (n + 1) (.close id)).run m = _ := closeStep_pending ht hf hp
        obtain ⟨m₁, hc⟩ := hd _ (.here (.cleanup n ht hf hp))
        have hstart : (startCleanup (Job.run n) c).run (m.withPending id cs) = ⟨.returned (), m₁⟩ :=
          (run_startCleanup _ _ _).trans hc.ending
        have ht₁ : m₁.thread.torn = false :=
          hc.spared.torn.trans ((Spared.started (Nat.le_refl id) cs c m).torn.trans ht)
        have hnext := Enters.closeNext ht hf hp hstart
        rw [run_bind_returned hstart] at hstep
        rcases ih ht₁ fun d h => hd d (.later hnext trivial h) with ⟨m', hout⟩ | ⟨ds, m', hret, hcs⟩
        · exact .inl ⟨m', hstep.trans hout⟩
        · exact .inr ⟨c :: ds, m', hstep.trans hret, .cleanup hf hp hc hcs⟩

/-! ## Closing the frames of a session -/

/-- How the frames above a base are closed, innermost first: the frames, with their cleanups. -/
inductive ClosesAbove (base : Option Nat) : Machine → List (Nat × List Cleanup) → Machine → Prop
  | done {m} (h : ∀ f ∈ m.thread.frames.innermost?, base.any (f.id ≤ ·)) : ClosesAbove base m [] m
  | frame {m m₁ m' f fs cs gone} (hf : m.thread.frames.frames = f :: fs)
    (hb : ¬base.any (f.id ≤ ·)) (hc : Closes f.id m cs m₁) (h : ClosesAbove base m₁ gone m') :
    ClosesAbove base m ((f.id, cs) :: gone) m'

namespace ClosesAbove

variable {base : Option Nat} {m m' : Machine} {gone : List (Nat × List Cleanup)}

theorem obeys {r : Machine → Machine → Prop} (P : AllPrimitives r) (h : ClosesAbove base m gone m')
    (ht : m.thread.torn = false) : r m m' := by
  induction h with
  | done h => exact P.refl _
  | frame hf hb hc h ih =>
    have hclose := hc.obeys P ht
    exact P.trans hclose (ih ((P.steady hclose).torn.trans ht))

/-- Frames up to the base are spared. -/
theorem spared {bound : Nat} (h : ClosesAbove base m gone m') (ho : m.Orderly)
    (hb : bound ≤ m.thread.frames.nextId)
    (hbase : ∀ id ∈ m.openIds, id < bound → base.any (id ≤ ·)) : Spared bound m m' := by
  induction h with
  | done h => exact .refl _
  | frame hf hbf hc h ih =>
    rename_i m m₁ m' f fs cs gone
    have hid : bound ≤ f.id := by
      refine Nat.le_of_not_lt fun hlt => hbf (hbase f.id ?_ hlt)
      unfold openIds
      rw [hf]
      exact List.mem_cons_self
    have hclose := hc.spared hid hb
    refine hclose.trans (ih (hclose.orderly ho) (Nat.le_trans hb hclose.nextId) ?_)
    exact fun id hopen hlt => hbase id (((hclose.still ho hb).openIds hlt).1 hopen) hlt

/-- Each frame above the base is cleared. -/
theorem clears (h : ClosesAbove base m gone m') (ho : m.Orderly) (ht : m.thread.torn = false)
    {id : Nat} (hopen : id ∈ m.openIds) (hid : ¬base.any (id ≤ ·)) :
    ∃ cs, (id, cs) ∈ gone ∧ Clears id m m' cs := by
  induction h with
  | done h =>
    rename_i m
    obtain ⟨i, hi, hle⟩ := (Option.any_eq_true _ _).1 (ho.le_innermostId hopen)
    obtain ⟨f, hf, rfl⟩ := Option.map_eq_some_iff.1 hi
    obtain ⟨b, hb, hfb⟩ := (Option.any_eq_true _ _).1 (h f hf)
    refine (hid ?_).elim
    rw [hb]
    exact decide_eq_true (Nat.le_trans (of_decide_eq_true hle) (of_decide_eq_true hfb))
  | frame hf hb hc h ih =>
    rename_i m m₁ m' f fs cs gone
    have hclose : Tidy m m₁ := hc.obeys Tidy.primitives ht
    have ho₁ := hclose.orderly ho
    have ht₁ := hclose.torn.trans ht
    have hrest : Tidy m₁ m' := h.obeys Tidy.primitives ht₁
    by_cases he : id = f.id
    · subst he
      exact ⟨cs, List.mem_cons_self, (hc.clears ho).mono hclose.toGrows hrest.toGrows⟩
    · have hlt : id < f.id := by
        have hd := ho.frames.descending
        unfold openIds at hopen
        rw [hf] at hd hopen
        obtain hopen | hopen := List.mem_cons.1 hopen
        · exact (he hopen).elim
        · obtain ⟨g, hg, rfl⟩ := List.mem_map.1 hopen
          exact (List.pairwise_cons.1 hd).1 g hg
      have hle : f.id ≤ m.thread.frames.nextId :=
        Nat.le_of_lt (ho.frames.fresh f (hf ▸ List.mem_cons_self))
      have hstill := (hc.spared (Nat.le_refl _) hle).still ho hle
      obtain ⟨ds, hmem, hds⟩ := ih ho₁ ht₁ ((hstill.openIds hlt).2 hopen)
      exact ⟨ds, List.mem_cons_of_mem _ hmem,
        hds.after hstill hopen hlt hclose.toGrows hrest.toGrows⟩

end ClosesAbove

theorem closeAbove_completes {n : Nat} {base : Option Nat} {m : Machine}
    (ht : m.thread.torn = false)
    (hd : ∀ d, StartsCleanup ⟨n, .job (.closeAbove base), m⟩ d → ∃ m', d.Completes .cleanup m') :
    Activation.RunsOut ⟨n, .job (.closeAbove base), m⟩ ∨
      ∃ gone m', (Job.run n (.closeAbove base)).run m = ⟨.returned (), m'⟩ ∧
        ClosesAbove base m gone m' := by
  induction n generalizing m with
  | zero => exact .inl ⟨m, rfl⟩
  | succ n ih =>
    by_cases hdone : ∀ f ∈ m.thread.frames.innermost?, base.any (f.id ≤ ·)
    · exact .inr ⟨[], m, closeAboveStep_done ht hdone, .done hdone⟩
    · obtain ⟨f, fs, hf, hb⟩ : ∃ f fs, m.thread.frames.frames = f :: fs ∧
          ¬base.any (f.id ≤ ·) := by
        unfold FrameStack.innermost? at hdone
        cases hf : m.thread.frames.frames with
        | nil => rw [hf] at hdone; exact (hdone nofun).elim
        | cons f fs =>
          rw [hf] at hdone
          exact ⟨f, fs, rfl, fun hb => hdone fun g hg => by cases hg; exact hb⟩
      have hstep : (Job.run (n + 1) (.closeAbove base)).run m = _ :=
        closeAboveStep_inner ht hf hb
      have hinner := Enters.closeInner n ht hf hb
      rcases close_completes ht fun d h => hd d (.later hinner trivial h) with
        ⟨m', hout⟩ | ⟨cs, m₁, hret, hcs⟩
      · exact .inl ⟨m', hstep.trans (run_bind_halted hout)⟩
      · have hnext := Enters.closeAboveNext ht hf hb hret
        have ht₁ := (hcs.obeys Tidy.primitives ht).torn.trans ht
        rw [run_bind_returned hret] at hstep
        rcases ih ht₁ fun d h => hd d (.later hnext trivial h) with
          ⟨m', hout⟩ | ⟨gone, m', hret', hgone⟩
        · exact .inl ⟨m', hstep.trans hout⟩
        · exact .inr ⟨(f.id, cs) :: gone, m', hstep.trans hret', .frame hf hb hcs hgone⟩

/-! ## Dropping the guards of a block -/

/-- How guards of the current block are dropped, newest first: their frames, with the cleanups. -/
inductive Drops : Nat → Machine → List (Nat × List Cleanup) → Machine → Prop
  | done {m} : Drops 0 m [] m
  | none {count m} (h : m.thread.held.headD [] = []) : Drops (count + 1) m [] m
  | guard {count m m₁ m' g own outer cs gone} (hh : m.thread.held = (g :: own) :: outer)
    (hc : Closes g.frame ((m.withHeld (own :: outer)).leaving g.frame) cs m₁)
    (h : Drops count m₁ gone m') : Drops (count + 1) m ((g.frame, cs) :: gone) m'

namespace Drops

variable {count : Nat} {m m' : Machine} {gone : List (Nat × List Cleanup)}

/-- The guards of a block that was entered since are of frames from the bound on. -/
theorem spared {bound depth : Nat} (h : Drops count m gone m') (ht : m.thread.torn = false)
    (hb : bound ≤ m.thread.frames.nextId) (hh : m.HoldsAbove bound depth)
    (hin : depth < m.thread.held.length) : Spared bound m m' := by
  induction h with
  | done => exact .refl _
  | none h => exact .refl _
  | guard hheld hc h ih =>
    rename_i count m m₁ m' g own outer cs gone
    have hg : bound ≤ g.frame := by
      refine hh.head hin g ?_
      rw [hheld]
      exact List.mem_cons_self
    have hleft : Holding m ((m.withHeld (own :: outer)).leaving g.frame) :=
      Holding.primitives.trans (Holding.primitives.dropped _ _ _ _ hheld)
        (Holding.primitives.leftFrame _ _)
    have hhold : Holding m m₁ := hleft.trans (hc.obeys Holding.primitives ht)
    have hclose : Spared bound m m₁ :=
      ((Spared.withHeld (own :: outer) m).trans (.leaving hg _)).trans (hc.spared hg hb)
    refine hclose.trans (ih (hclose.torn.trans ht) (Nat.le_trans hb hclose.nextId)
      (hhold.above _ _ (fun _ => hb) hh) ?_)
    rw [hhold.length (by rw [hheld]; exact nofun)]
    exact hin

end Drops

theorem dropGuards_completes {n count : Nat} {m : Machine} (ht : m.thread.torn = false)
    (hd : ∀ d, StartsCleanup ⟨n, .drops count, m⟩ d → ∃ m', d.Completes .cleanup m') :
    Activation.RunsOut ⟨n, .drops count, m⟩ ∨
      ∃ gone m', (dropGuards (Job.run n) count).run m = ⟨.returned (), m'⟩ ∧
        Drops count m gone m' := by
  induction count generalizing m with
  | zero => exact .inr ⟨[], m, rfl, .done⟩
  | succ count ih =>
    cases hown : m.thread.held.headD [] with
    | nil => exact .inr ⟨[], m, dropGuards_none count hown, .none hown⟩
    | cons g own =>
      obtain ⟨outer, hh⟩ : ∃ outer, m.thread.held = (g :: own) :: outer := by
        cases hh : m.thread.held with
        | nil => rw [hh] at hown; cases hown
        | cons _ outer =>
          rw [hh] at hown
          exact ⟨outer, congrArg (· :: outer) hown⟩
      have hstep : (dropGuards (Job.run n) (count + 1)).run m = _ := dropGuards_held count hh
      have hdrop := Enters.drop n count hh
      rcases close_completes (m := (m.withHeld (own :: outer)).leaving g.frame) ht
          fun d h => hd d (.later hdrop trivial h) with ⟨m', hout⟩ | ⟨cs, m₁, hret, hcs⟩
      · exact .inl ⟨m', hstep.trans (run_onExit_halted hout)⟩
      · have hnext := @Enters.dropNext _ _ count _ _ _ _ _ _ hh (leaves_of_returned hret)
        have ht₁ := (hcs.obeys Tidy.primitives ht).torn.trans ht
        rcases ih ht₁ fun d h => hd d (.later hnext trivial h) with
          ⟨m', hout⟩ | ⟨gone, m', hret', hgone⟩
        · exact .inl ⟨m', hstep.trans (run_onExit_returned_halted hret hout)⟩
        · exact .inr ⟨(g.frame, cs) :: gone, m', hstep.trans (run_onExit_returned hret hret'),
            .guard hh hcs hgone⟩

end NonlocalExit
