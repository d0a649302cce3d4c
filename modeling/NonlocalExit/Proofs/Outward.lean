import NonlocalExit.Proofs.Inversion
import NonlocalExit.Proofs.Passing
import NonlocalExit.Proofs.Sessions

/-!
# Frames that are closed one after another

A panic that meets no mark and the end of a session close frames as long as there are some to close,
each time the innermost one.  `ClosesOutward` lists the frames and the cleanups that are started in
them.  What is closed later is further out, unless a cleanup opened it and left it open:
`ClosesOutward.inOrder`.
-/

namespace NonlocalExit

theorem Frame.map_id_erase {α : Type} {id : Nat} (fs : List (Frame α)) :
    (erase id fs).map (·.id) = (fs.map (·.id)).erase id := by
  induction fs with
  | nil => rfl
  | cons f fs ih =>
    rw [Frame.erase, List.map_cons, List.erase_cons]
    by_cases h : f.id = id <;> simp [h, ih]

variable [Declarations]

open Effect Machine

/-- Whether the same frames are open when a piece has returned as before it. -/
def Activation.KeepsFrames (a : Activation) : Prop :=
  ∀ m, a.run = ⟨.returned (), m⟩ → m.openIds = a.machine.openIds

/-! ## One frame -/

/-- How a frame is closed: the cleanups that are run meanwhile, one after another, each of them the
newest that waits in the frame when its turn comes. -/
inductive Empties (id : Nat) : Machine → List Cleanup → Machine → Prop
  | absent {m} (h : Frame.find? id m.thread.frames.frames = none) : Empties id m [] m
  | closed {m f} (hf : Frame.find? id m.thread.frames.frames = some f) (hp : f.pending = []) :
    Empties id m [] (m.closed id)
  | cleanup {m m₁ m' f c cs ds k} (hf : Frame.find? id m.thread.frames.frames = some f)
    (hp : f.pending = c :: cs)
    (hc : Activation.run ⟨k, .job (.block c.body), (m.withPending id cs).starting c⟩ =
      ⟨.returned (), m₁⟩)
    (h : Empties id m₁ ds m') : Empties id m (c :: ds) m'

namespace Empties

variable {id : Nat} {m m' : Machine} {cs : List Cleanup}

theorem tidy (h : Empties id m cs m') : Tidy m m' := by
  induction h with
  | absent h => exact .refl _
  | closed hf hp => exact .closed _ _
  | cleanup hf hp hc h ih =>
    exact (((Tidy.withPending _ _ _).trans (.starting _ _)).trans
      (Tidy.primitives.obeys_run (leaves_of_returned hc))).trans ih

theorem not_open (h : Empties id m cs m') (ho : m.Orderly) : id ∉ m'.openIds := by
  induction h with
  | absent h => exact not_mem_openIds_of_find? h
  | closed hf hp => exact not_mem_openIds_of_find? (Frame.find?_erase_self ho.frames.distinct)
  | cleanup hf hp hc h ih =>
    have hrun := (((Tidy.withPending _ _ _).trans (.starting _ _)).trans
      (Tidy.primitives.obeys_run (leaves_of_returned hc)))
    exact ih (hrun.orderly ho)

end Empties

section

variable {n id : Nat} {m m' : Machine}

/-- All cleanups of a frame whose closing has returned have returned. -/
theorem empties_of_returned (h : (Job.run n (.close id)).run m = ⟨.returned (), m'⟩) :
    ∃ cs, Empties id m cs m' := by
  induction n generalizing m with
  | zero => simp [Job.run, Effect.halt] at h
  | succ n ih =>
    have hends : CloseEnds (Job.run n) id m none m' := closeEnds_of_leaves (leaves_of_returned h)
    cases hends with
    | absent ht hf => exact ⟨[], .absent hf⟩
    | empty ht hf hp => exact ⟨[], .closed hf hp⟩
    | next ht hf hp hc h =>
      obtain ⟨_, h⟩ := returned_of_leaves h
      obtain ⟨ds, hds⟩ := ih h
      exact ⟨_, .cleanup hf hp ((run_startCleanup _ _ _).symm.trans hc) hds⟩

/-- A closing that is left by an unwind was left by it in one of its cleanups. -/
theorem cleanup_of_unwound {t : Transfer} (ht : m.thread.torn = false)
    (h : (Job.run n (.close id)).run m = ⟨.unwound t, m'⟩) :
    ∃ d, StartsCleanup ⟨n, .job (.close id), m⟩ d ∧ d.run = ⟨.unwound t, m'⟩ := by
  induction n generalizing m with
  | zero => simp [Job.run, Effect.halt] at h
  | succ n ih =>
    have hends : CloseEnds (Job.run n) id m (some t) m' :=
      closeEnds_of_leaves (leaves_of_unwound h)
    cases hends with
    | torn ht' => simp [ht] at ht'
    | cleanup _ hf hp h => exact ⟨_, .here (.cleanup n ht hf hp), h⟩
    | next _ hf hp hc h =>
      have hnext := Enters.closeNext ht hf hp hc
      obtain ⟨d, hd, hrun⟩ := ih ((tidy_of_enters hnext).torn.trans ht) (unwound_of_leaves h)
      exact ⟨d, .later hnext trivial hd, hrun⟩

theorem openIds_starting (cs : List Cleanup) (c : Cleanup) :
    ((m.withPending id cs).starting c).openIds = m.openIds := by
  have hstart : ((m.withPending id cs).starting c).openIds = (m.withPending id cs).openIds := by
    unfold Machine.starting
    split <;> rfl
  exact hstart.trans (map_id_withPending cs)

/-- Where its cleanups keep the frames, closing a frame takes away this one. -/
theorem openIds_of_close (h : (Job.run n (.close id)).run m = ⟨.returned (), m'⟩)
    (hd : ∀ d, StartsCleanup ⟨n, .job (.close id), m⟩ d → d.KeepsFrames) :
    m'.openIds = m.openIds.erase id := by
  induction n generalizing m with
  | zero => simp [Job.run, Effect.halt] at h
  | succ n ih =>
    have hends : CloseEnds (Job.run n) id m none m' := closeEnds_of_leaves (leaves_of_returned h)
    cases hends with
    | absent ht hf => exact (List.erase_of_not_mem (not_mem_openIds_of_find? hf)).symm
    | empty ht hf hp => exact Frame.map_id_erase _
    | next ht hf hp hc h =>
      rename_i f c cs m₁
      have hkept := hd _ (.here (.cleanup n ht hf hp)) m₁ ((run_startCleanup _ _ _).symm.trans hc)
      have hids : m₁.openIds = m.openIds := hkept.trans (openIds_starting cs c)
      obtain ⟨_, h⟩ := returned_of_leaves h
      rw [ih h fun d hs => hd d (.later (.closeNext ht hf hp hc) trivial hs), hids]

end

/-! ## Frame after frame -/

/-- How frames are closed, each time the innermost one that is open: the frames, with the cleanups
that are run in them.  `meet` is what is noted when a frame is come to. -/
inductive ClosesOutward (meet : Nat → Machine → Machine) :
    Machine → List (Nat × List Cleanup) → Machine → Prop
  | done {m} : ClosesOutward meet m [] m
  | frame {m m₁ m' f fs cs gone} (hf : m.thread.frames.frames = f :: fs)
    (hc : Empties f.id (meet f.id m) cs m₁) (h : ClosesOutward meet m₁ gone m') :
    ClosesOutward meet m ((f.id, cs) :: gone) m'

namespace ClosesOutward

variable {meet : Nat → Machine → Machine} {m m' : Machine} {gone : List (Nat × List Cleanup)}

/-- Each frame is further out than those that were closed before it, or was opened meanwhile. -/
theorem inOrder (h : ClosesOutward meet m gone m') (hmeet : ∀ id m, Tidy m (meet id m))
    (ho : m.Orderly) {bound : Nat} (hb : bound ≤ m.thread.frames.nextId) :
    (gone.map (·.1)).Pairwise (fun i j => j < i ∨ bound ≤ j) ∧
      ∀ i ∈ gone.map (·.1), i ∈ m.openIds ∨ bound ≤ i := by
  induction h with
  | done => simp
  | @frame m m₁ m' f fs cs gone hf hc h ih =>
    have htidy := (hmeet f.id m).trans hc.tidy
    have hclosed := hc.not_open ((hmeet f.id m).orderly ho)
    obtain ⟨hpair, hmem⟩ := ih (htidy.orderly ho) (Nat.le_trans hb htidy.nextId)
    have hopen : f.id ∈ m.openIds := mem_openIds_of_innermostId (innermostId_of_cons hf)
    have hlater : ∀ i ∈ gone.map (·.1), i ∈ m.openIds ∧ i < f.id ∨ bound ≤ i := by
      intro i hi
      obtain hi | hi := hmem i hi
      · obtain hold | hnew := htidy.novel i hi
        · have hle := ho.le_innermostId hold
          rw [innermostId_of_cons hf] at hle
          have hle : i ≤ f.id := of_decide_eq_true hle
          have hne : i ≠ f.id := fun he => hclosed (he ▸ hi)
          exact .inl ⟨hold, by omega⟩
        · exact .inr (Nat.le_trans hb hnew)
      · exact .inr hi
    constructor
    · exact List.pairwise_cons.2 ⟨fun i hi => (hlater i hi).imp_left (·.2), hpair⟩
    · intro i hi
      obtain rfl | hi := List.mem_cons.1 hi
      · exact .inl hopen
      · exact (hlater i hi).imp_left (·.1)

end ClosesOutward

/-- What a panic notes when it comes past a frame. -/
def Machine.passing (id : Nat) (m : Machine) : Machine := m.note (.step (.passed id))

section

variable {n : Nat} {m m' : Machine}

/-- A walk that no cleanup has unwound has closed one frame after another; and unless it was
stopped, it has left none open. -/
theorem outward_of_walk {code : ErrorCode} {o : Option Transfer} (ht : m.thread.torn = false)
    (h : ((Job.run n (.walk code)).run m).Leaves o m')
    (hd : ∀ t, o = some t → ∀ d, StartsCleanup ⟨n, .job (.walk code), m⟩ d →
      d.run ≠ ⟨.unwound t, m'⟩) :
    ∃ gone, ClosesOutward passing m gone m' ∧ (o = none → m'.openIds = []) ∧
      ((∀ d, StartsCleanup ⟨n, .job (.walk code), m⟩ d → d.KeepsFrames) →
        gone.map (·.1) ++ m'.openIds = m.openIds) := by
  induction n generalizing m with
  | zero => exact (not_leaves_halt h).elim
  | succ n ih =>
    have hends : WalkEnds (Job.run n) code m o m' := walkEnds_of_leaves h
    cases hends with
    | torn ht' => simp [ht] at ht'
    | outside _ hf => exact ⟨[], .done, fun _ => by simp [openIds, hf], fun _ => rfl⟩
    | marked => exact ⟨[], .done, fun ho => (Option.some_ne_none _ ho).elim, fun _ => rfl⟩
    | @passed f _ _ _ ht' hf hm h =>
      obtain ⟨d, hs, hrun⟩ := cleanup_of_unwound (m := m.note (.step (.passed f.id))) ht' h
      exact (hd _ rfl d (.later (.passed n code ht hf hm) trivial hs) hrun).elim
    | @next f fs _ m₁ _ ht' hf hm hc h =>
      have hinner := Enters.passed n code ht hf hm
      have hnext := @Enters.walkNext _ n code _ _ _ _ ht hf hm hc
      obtain ⟨cs, hcs⟩ := empties_of_returned hc
      obtain ⟨gone, hgone, hnone, hall⟩ := ih ((tidy_of_enters hnext).torn.trans ht) h
        fun t ho d hs => hd t ho d (.later hnext trivial hs)
      refine ⟨_, .frame hf hcs hgone, hnone, fun hd => ?_⟩
      have hids : m₁.openIds = (m.note (.step (.passed f.id))).openIds.erase f.id :=
        openIds_of_close hc fun d hs => hd d (.later hinner trivial hs)
      rw [List.map_cons, List.cons_append, hall fun d hs => hd d (.later hnext trivial hs), hids]
      simp [openIds, Machine.note, hf]

/-- What is open down to a base when the innermost frame is the base or below it. -/
theorem le_base_of_innermost {base : Option Nat} (ho : m.Orderly)
    (h : ∀ f ∈ m.thread.frames.innermost?, base.any (f.id ≤ ·)) :
    ∀ i ∈ m.openIds, base.any (i ≤ ·) := by
  intro i hi
  have hle := ho.le_innermostId hi
  cases hf : m.thread.frames.innermost? with
  | none => simp [Machine.innermostId, hf] at hle
  | some f =>
    have hbase := h f hf
    cases base with
    | none => simp at hbase
    | some b =>
      simp only [Machine.innermostId, hf, Option.map_some, Option.any_some, decide_eq_true_eq]
        at hle hbase ⊢
      omega

/-- A closing down to a base that has returned has closed one frame after another, and left none
open above the base. -/
theorem outward_of_closeAbove {base : Option Nat} (ho : m.Orderly)
    (h : (Job.run n (.closeAbove base)).run m = ⟨.returned (), m'⟩) :
    ∃ gone, ClosesOutward (fun _ => id) m gone m' ∧
      ((∀ d, StartsCleanup ⟨n, .job (.closeAbove base), m⟩ d → d.KeepsFrames) →
        gone.map (·.1) = m.openIds.filter fun i => ¬base.any (i ≤ ·)) := by
  induction n generalizing m with
  | zero => simp [Job.run, Effect.halt] at h
  | succ n ih =>
    have hinnermost := innermost_of_closeAbove (leaves_of_returned h) rfl
    have hends : CloseAboveEnds (Job.run n) base m none m' :=
      closeAboveEnds_of_leaves (leaves_of_returned h)
    cases hends with
    | done ht =>
      have hnone : m'.openIds.filter (fun i => ¬base.any (i ≤ ·)) = [] := by
        simpa using le_base_of_innermost ho hinnermost
      exact ⟨[], .done, fun _ => hnone.symm⟩
    | next ht hf hb hc h =>
      rename_i f fs m₁
      obtain ⟨_, h⟩ := returned_of_leaves h
      obtain ⟨cs, hcs⟩ := empties_of_returned hc
      obtain ⟨gone, hgone, hall⟩ := ih (hcs.tidy.orderly ho) h
      refine ⟨_, .frame hf hcs hgone, fun hd => ?_⟩
      have hinner := Enters.closeInner n ht hf hb
      have hnext := Enters.closeAboveNext ht hf hb hc
      have hids : m₁.openIds = m.openIds.erase f.id :=
        openIds_of_close hc fun d hs => hd d (.later hinner trivial hs)
      rw [List.map_cons, hall fun d hs => hd d (.later hnext trivial hs), hids]
      simp [openIds, hf, hb]

/-- A body that leaves two cleanups, the newer of which opens a frame with a cleanup and leaves it
open. -/
def leakingCleanup : Block :=
  [.defer [.emit "older"],
    .defer [.emit "newer", .enter "inner", .defer [.emit "inner"], .leak "inner"]]

/-- How a piece closes all of some frames: each time the innermost one that is open, and so from the
innermost to the outermost, but for frames that cleanups have left open. -/
structure Activation.ClosesFrames (y : Activation) (meet : Nat → Machine → Machine) (ids : List Nat)
    (gone : List (Nat × List Cleanup)) (m' : Machine) : Prop where
  closes : ClosesOutward meet y.machine gone m'
  inOrder : (gone.map (·.1)).Pairwise fun i j => j < i ∨ y.machine.thread.frames.nextId ≤ j
  all : (∀ d, StartsCleanup y d → d.KeepsFrames) → gone.map (·.1) = ids

theorem closesFrames_of_walk {code : ErrorCode} (ho : m.Orderly) (ht : m.thread.torn = false)
    (h : (Job.run n (.walk code)).run m = ⟨.returned (), m'⟩) :
    m'.openIds = [] ∧ ∃ gone,
      Activation.ClosesFrames ⟨n, .job (.walk code), m⟩ passing m.openIds gone m' := by
  obtain ⟨gone, hgone, hnone, hall⟩ := outward_of_walk ht (leaves_of_returned h) nofun
  have horder := (hgone.inOrder (fun _ _ => .note _ _) ho (Nat.le_refl _)).1
  refine ⟨hnone rfl, gone, hgone, horder, fun hd => ?_⟩
  rw [← hall hd, hnone rfl, List.append_nil]

/-- A walk that stops at a mark has closed the frames further in. -/
theorem closesFrames_of_markedWalk {code : ErrorCode} {t : Transfer} {aim : Nat} (ho : m.Orderly)
    (ht : m.thread.torn = false) (h : (Job.run n (.walk code)).run m = ⟨.unwound t, m'⟩)
    (hd : ∀ d, StartsCleanup ⟨n, .job (.walk code), m⟩ d → ∃ m₁, d.run = ⟨.returned (), m₁⟩)
    (haim : aim ∈ m'.openIds) (hids : ∀ id ∈ m'.openIds, id ≤ aim) :
    ∃ gone, Activation.ClosesFrames ⟨n, .job (.walk code), m⟩ passing
      (m.openIds.filter (aim < ·)) gone m' := by
  obtain ⟨gone, hgone, -, hall⟩ := outward_of_walk ht (leaves_of_unwound h) fun t _ d hs hrun => by
    obtain ⟨m₁, hrun'⟩ := hd d hs
    rw [hrun] at hrun'
    cases hrun'
  have horder := (hgone.inOrder (fun _ _ => .note _ _) ho (Nat.le_refl _)).1
  refine ⟨gone, hgone, horder, fun hk => ?_⟩
  -- What was closed is above all that is still open.
  have habove : ∀ id ∈ gone.map (·.1), aim < id := by
    have hdesc : m.openIds.Pairwise (· > ·) := List.pairwise_map.2 ho.frames.descending
    rw [← hall hk] at hdesc
    exact fun id hid => (List.pairwise_append.1 hdesc).2.2 id hid aim haim
  rw [← hall hk, List.filter_append,
    List.filter_eq_self.2 fun id hid => by simpa using habove id hid,
    List.filter_eq_nil_iff.2 fun id hid => by simpa using hids id hid, List.append_nil]

theorem closesFrames_of_closeAbove {base : Option Nat} (ho : m.Orderly)
    (h : (Job.run n (.closeAbove base)).run m = ⟨.returned (), m'⟩) :
    ∃ gone, Activation.ClosesFrames ⟨n, .job (.closeAbove base), m⟩ (fun _ => id)
      (m.openIds.filter fun i => ¬base.any (i ≤ ·)) gone m' := by
  obtain ⟨gone, hgone, hall⟩ := outward_of_closeAbove ho h
  have horder := (hgone.inOrder (fun _ => .refl) ho (Nat.le_refl _)).1
  exact ⟨gone, hgone, horder, hall⟩

end

end NonlocalExit
