import NonlocalExit.Proofs.OuterFrames

/-!
# What a session leaves to its caller

A session closes the frames above its base and no others, so it keeps the frames that were open
when it started.  The walk of a panic does not heed the base: `frames_after_session` shows that the
frames of the caller are kept if, and only if, no panic came past one of them.

For one direction this is `keeps_run`.  For the other the weight of the frames in `S` is
measured: nothing but a registration makes it grow, and a panic that passes makes it fall.
-/

namespace NonlocalExit

open Effect

namespace Frame

variable {α : Type} {S : List Nat} {id : Nat} {f : Frame α} {fs : List (Frame α)}

/-- What a frame counts among those in `S`: itself and its cleanups. -/
def weightIn (S : List Nat) (f : Frame α) : Nat := if f.id ∈ S then f.pending.length + 1 else 0

/-- The frames in `S` and their cleanups, counted. -/
def weight (S : List Nat) : List (Frame α) → Nat
  | [] => 0
  | f :: fs => weightIn S f + weight S fs

theorem weight_cons : weight S (f :: fs) = weightIn S f + weight S fs := rfl

theorem weight_erase (h : find? id fs = some f) :
    weight S fs = weightIn S f + weight S (erase id fs) := by
  induction fs with
  | nil => cases h
  | cons g gs ih =>
    by_cases hg : g.id = id
    · rw [find?, if_pos hg] at h
      cases h
      rw [erase, if_pos hg, weight_cons]
    · rw [find?, if_neg hg] at h
      rw [erase, if_neg hg, weight_cons, weight_cons, ih h]
      omega

theorem weight_update {c : Frame α → Frame α} (h : find? id fs = some f) :
    weight S (update id c fs) + weightIn S f = weight S fs + weightIn S (c f) := by
  induction fs with
  | nil => cases h
  | cons g gs ih =>
    by_cases hg : g.id = id
    · rw [find?, if_pos hg] at h
      cases h
      rw [update, if_pos hg, weight_cons, weight_cons]
      omega
    · rw [find?, if_neg hg] at h
      rw [update, if_neg hg, weight_cons, weight_cons]
      have := ih h
      omega

theorem weight_withMark (mark : Option Nat) :
    weight S (update id (·.withMark mark) fs) = weight S fs := by
  induction fs with
  | nil => rfl
  | cons g gs ih =>
    by_cases hg : g.id = id
    · rw [update, if_pos hg]; rfl
    · rw [update, if_neg hg, weight_cons, weight_cons, ih]

end Frame

section

variable [Declarations]

/-- Whether no cleanup is registered in a frame in `S`. -/
def RegistersNone (S : List Nat) (es : List Entry) : Prop :=
  ∀ id ∈ S, ∀ s, .step (.registered s (some id)) ∉ es

theorem registersNone_append {S : List Nat} {es es' : List Entry} :
    RegistersNone S (es ++ es') ↔ RegistersNone S es ∧ RegistersNone S es' := by
  simp only [RegistersNone, List.mem_append, not_or]
  exact ⟨fun h => ⟨fun id hid s => (h id hid s).1, fun id hid s => (h id hid s).2⟩,
    fun h id hid s => ⟨h.1 id hid s, h.2 id hid s⟩⟩

namespace Machine

/-- The weight of the open frames in `S`. -/
def weight (S : List Nat) (m : Machine) : Nat := Frame.weight S m.thread.frames.frames

/-- Whether the frames in `S` get no lighter by panics unless they pass, and no heavier. -/
structure Wanes (S : List Nat) (m m' : Machine) : Prop extends Tidy m m' where
  le : (∀ id ∈ S, id < m.thread.frames.nextId) → m.Orderly → RegistersNone S (m.deeds m') →
    m'.weight S ≤ m.weight S
  lt : (∀ id ∈ S, id < m.thread.frames.nextId) → m.Orderly → RegistersNone S (m.deeds m') →
    ¬PassesNone S (m.deeds m') → m'.weight S < m.weight S

namespace Wanes

variable {S : List Nat} {m m₁ m' : Machine}

theorem trans (h : Wanes S m m₁) (h' : Wanes S m₁ m') : Wanes S m m' := by
  have hd := deeds_trans h.toGrows.adds h'.toGrows.adds
  have hboth : (∀ id ∈ S, id < m.thread.frames.nextId) → m.Orderly → RegistersNone S (m.deeds m') →
      m'.weight S ≤ m₁.weight S ∧ m₁.weight S ≤ m.weight S := by
    intro hS ho hr
    rw [hd, registersNone_append] at hr
    have hS' : ∀ id ∈ S, id < m₁.thread.frames.nextId :=
      fun id hid => Nat.lt_of_lt_of_le (hS id hid) h.nextId
    exact ⟨h'.le hS' (h.orderly ho) hr.1, h.le hS ho hr.2⟩
  refine ⟨h.toTidy.trans h'.toTidy, fun hS ho hr => ?_, fun hS ho hr hp => ?_⟩
  · have := hboth hS ho hr
    omega
  · have := hboth hS ho hr
    rw [hd, registersNone_append] at hr
    rw [hd, passesNone_append] at hp
    by_cases hp₁ : PassesNone S (m.deeds m₁)
    · have hS' : ∀ id ∈ S, id < m₁.thread.frames.nextId :=
        fun id hid => Nat.lt_of_lt_of_le (hS id hid) h.nextId
      have := h'.lt hS' (h.orderly ho) hr.1 fun hp' => hp ⟨hp', hp₁⟩
      omega
    · have := h.lt hS ho hr.2 hp₁
      omega

/-- A step by which no panic passes. -/
theorem of_le (ht : Tidy m m') (hp : PassesNone S (m.deeds m'))
    (hw : (∀ id ∈ S, id < m.thread.frames.nextId) → m.Orderly → RegistersNone S (m.deeds m') →
      m'.weight S ≤ m.weight S) : Wanes S m m' :=
  ⟨ht, hw, fun _ _ _ h => (h hp).elim⟩

theorem of_frames (ht : Tidy m m') (hd : ∀ e ∈ m.deeds m', e.IsNeutral)
    (hf : m'.thread.frames.frames = m.thread.frames.frames) : Wanes S m m' := by
  have hw : m'.weight S = m.weight S := by
    unfold weight
    rw [hf]
  exact of_le ht (fun id _ he => (hd _ he id).1 rfl) fun _ _ _ => Nat.le_of_eq hw

theorem of_journal_eq (ht : Tidy m m') (hj : m'.shared.journal = m.shared.journal)
    (hw : m'.weight S ≤ m.weight S) : Wanes S m m' := by
  refine of_le ht ?_ fun _ _ _ => hw
  rw [deeds_of_journal_eq hj]
  simp [PassesNone]

theorem refl (m : Machine) : Wanes S m m := of_journal_eq (.refl m) rfl (Nat.le_refl _)

theorem note {e : Entry} (h : e.IsNeutral) (m : Machine) : Wanes S m (m.note e) := by
  refine of_frames (.note e m) (fun x hx => ?_) rfl
  rw [deeds_note] at hx
  obtain rfl := List.mem_singleton.1 hx
  exact h

theorem withHeld {held held' : List (List Guard)} (h : Wanes S (m.withHeld held) m') :
    Wanes S m (m'.withHeld held') :=
  ⟨((Tidy.withHeld _ _).trans h.toTidy).trans (.withHeld _ _),
    fun hS ho => h.le hS (ho.withHeld _), fun hS ho => h.lt hS (ho.withHeld _)⟩

theorem opened (m : Machine) : Wanes S m m.opened := by
  refine of_le (.opened m) ?_ fun hS _ _ => ?_
  · rw [deeds_opened]
    simp [PassesNone]
  · have hnew : Frame.weightIn S (Frame.new Cleanup m.thread.frames.nextId) = 0 :=
      if_neg fun h => Nat.lt_irrefl _ (hS _ h)
    show Frame.weight S (Frame.new Cleanup m.thread.frames.nextId :: m.thread.frames.frames) ≤ _
    rw [Frame.weight_cons, hnew, Nat.zero_add]
    exact Nat.le_refl _

theorem rooted (m : Machine) : Wanes S m m.rooted := by
  unfold Machine.rooted
  split
  · exact opened m
  · exact refl m

theorem starting (m : Machine) (c : Cleanup) : Wanes S m (m.starting c) := by
  unfold Machine.starting
  split
  · exact (note (by simp [Entry.IsNeutral]) _).trans (note (by simp [Entry.IsNeutral]) _)
  · exact note (by simp [Entry.IsNeutral]) _

theorem withMark (id : Nat) (mark : Option Nat) (m : Machine) : Wanes S m (m.withMark id mark) :=
  of_journal_eq (.withMark id mark m) rfl
    (Nat.le_of_eq (Frame.weight_withMark mark))

theorem tokenTaken (m : Machine) : Wanes S m m.tokenTaken :=
  of_journal_eq (.tokenTaken m) rfl (Nat.le_refl _)

theorem serialTaken (m : Machine) : Wanes S m m.serialTaken :=
  of_journal_eq (.serialTaken m) rfl (Nat.le_refl _)

theorem withRecovering (rs : List Recovery) (m : Machine) : Wanes S m (m.withRecovering rs) :=
  of_journal_eq (.withRecovering rs m) rfl (Nat.le_refl _)

/-- A frame that is closed counts no more. -/
theorem weight_closed {id : Nat} {f : Frame Cleanup}
    (hf : Frame.find? id m.thread.frames.frames = some f) :
    m.weight S = Frame.weightIn S f + (m.closed id).weight S := Frame.weight_erase hf

theorem closed {id : Nat} {f : Frame Cleanup}
    (hf : Frame.find? id m.thread.frames.frames = some f) : Wanes S m (m.closed id) := by
  refine of_le (.closed id m) ?_ fun _ _ _ => ?_
  · rw [deeds_closed]
    simp [PassesNone]
  · rw [weight_closed hf]
    exact Nat.le_add_left _ _

/-- A cleanup that is taken from its frame counts no more. -/
theorem weight_withPending {id : Nat} {f : Frame Cleanup} {c : Cleanup} {cs : List Cleanup}
    (hf : Frame.find? id m.thread.frames.frames = some f) (hp : f.pending = c :: cs) :
    m.weight S = (m.withPending id cs).weight S + if id ∈ S then 1 else 0 := by
  have h := Frame.weight_update (S := S) (c := (·.withPending cs)) hf
  have hid := Frame.id_of_find? hf
  have hw : m.weight S + Frame.weightIn S (f.withPending cs) =
      (m.withPending id cs).weight S + Frame.weightIn S f := h.symm
  have hbefore : Frame.weightIn S f = if id ∈ S then cs.length + 1 + 1 else 0 := by
    rw [Frame.weightIn, hid, hp, List.length_cons]
  have hafter : Frame.weightIn S (f.withPending cs) = if id ∈ S then cs.length + 1 else 0 := by
    rw [← hid]
    rfl
  rw [hbefore, hafter] at hw
  by_cases hlt : id ∈ S
  · simp only [if_pos hlt] at hw ⊢
    omega
  · simp only [if_neg hlt] at hw ⊢
    omega

theorem withPending {id : Nat} {f : Frame Cleanup} {c : Cleanup} {cs : List Cleanup}
    (hf : Frame.find? id m.thread.frames.frames = some f) (hp : f.pending = c :: cs) :
    Wanes S m (m.withPending id cs) :=
  of_journal_eq (.withPending id cs m) rfl
    (by rw [weight_withPending hf hp]; exact Nat.le_add_right _ _)

theorem registered {c : Cleanup} {s : FrameStack Cleanup} (hs : m.thread.frames.add? c = some s) :
    Wanes S m ((m.withFrames s).note (.step (.registered c.serial m.innermostId))) := by
  have hd : m.deeds ((m.withFrames s).note (.step (.registered c.serial m.innermostId))) =
      [.step (.registered c.serial m.innermostId)] := deeds_note m _
  refine of_le ((Tidy.add hs).trans (.note _ _)) ?_ fun _ _ hr => ?_
  · rw [hd]
    simp [PassesNone]
  · rw [hd] at hr
    obtain ⟨f, fs, hf, _, rfl⟩ := FrameStack.add?_eq_some.1 hs
    have hi : m.innermostId = some f.id := innermostId_of_cons hf
    have hge : f.id ∉ S := by
      intro hlt
      exact hr f.id hlt c.serial (by rw [hi]; exact List.mem_cons_self)
    show Frame.weight S (f.add c :: fs) ≤ Frame.weight S m.thread.frames.frames
    rw [hf, Frame.weight_cons, Frame.weight_cons, Frame.weightIn, Frame.weightIn,
      if_neg (show ¬(f.add c).id ∈ S from hge)]
    omega

theorem ofThread (hg : Grows m.threadStarted m') : Wanes S m { m' with thread := m.thread } := by
  refine ⟨.ofThread hg, fun _ _ _ => Nat.le_refl _, fun _ ho _ hp => ?_⟩
  refine (hp ?_).elim
  rw [deeds_ofThread ho.number hg.adds]
  simp [PassesNone]

theorem primitives (S : List Nat) : ClosingPrimitives (Wanes S) where
  refl := refl
  trans := trans
  steady h := h.toSteady
  aside h := of_frames (.aside h) (fun e he => (deeds_of_aside h e he).isNeutral)
    (by rw [h.frames])
  enteredFrame m _ := note (by simp [Entry.IsNeutral]) m
  leftFrame m _ := note (by simp [Entry.IsNeutral]) m
  intercepted m _ := note (by simp [Entry.IsNeutral]) m
  opened m _ := opened m
  closed m id f _ hf _ := closed hf
  started m id f c rest _ hf hp := (withPending hf hp).trans (starting _ c)
  registered m c s _ _ hs := by
    have hroot : Wanes S m m.serialTaken.rooted := (serialTaken m).trans (rooted _)
    exact hroot.trans (m.serialTaken.innermostId_rooted ▸ registered hs)
  registeredLate m c _ _ :=
    ((serialTaken m).trans (note (by simp [Entry.IsNeutral]) _)).trans (starting _ c)
  tokenTaken := tokenTaken
  block h := h.withHeld
  dropped m _ _ _ _ := (refl _).withHeld
  entered m _ _ := ((opened m).trans (note (by simp [Entry.IsNeutral]) _)).trans (refl _).withHeld
  released m _ _ _ _ := (refl _).withHeld
  recovery _ h := ((((((tokenTaken _).trans (rooted _)).trans (withMark _ _ _)).trans
    (withRecovering _ _)).trans h).trans (withMark _ _ _)).trans (withRecovering _ _)
  thread h := ofThread h

end Wanes

end Machine

/-! ## A panic that passes -/

section Jobs

open Machine

variable {S : List Nat} {exec : Executor}

/-- Whether closing an open frame in `S` takes something away. -/
def ClosesLighter (S : List Nat) (exec : Executor) : Prop :=
  ∀ {id m o m'}, id ∈ S → (Frame.find? id m.thread.frames.frames).isSome →
    m.thread.torn = false → ((exec (.close id)).run m).Leaves o m' →
    (∀ id ∈ S, id < m.thread.frames.nextId) → m.Orderly → RegistersNone S (m.deeds m') →
    m'.weight S < m.weight S

variable (H : ∀ j, Obeys (.ofRel (Wanes S)) (exec j))
include H

theorem closesLighter_step : ClosesLighter S (fun j => j.step exec) := by
  intro id m o m' hid hopen ht h hS ho hr
  obtain ⟨f, hf⟩ := Option.isSome_iff_exists.1 hopen
  have hfid : f.id ∈ S := by rw [Frame.id_of_find? hf]; exact hid
  rw [show (Job.step exec (.close id)).run m = (closeStep exec id).run m from rfl, run_closeStep,
    ht, hf] at h
  dsimp only at h
  cases hp : f.pending with
  | nil =>
    rw [hp] at h
    cases h
    rw [Wanes.weight_closed hf, Frame.weightIn, if_pos hfid]
    omega
  | cons c rest =>
    rw [hp] at h
    have hw := Wanes.weight_withPending (S := S) hf hp
    rw [if_pos hid] at hw
    have hstart : Wanes S (m.withPending id rest) m' := by
      obtain ⟨_, m₁, hc, h⟩ | ⟨t, hc, _⟩ := leaves_bind.1 h
      · have hc' := Primitives.obeys_startCleanup (fun b => H (.block b)) c (leaves_of_returned hc)
        exact (Wanes.starting _ c).trans (hc'.trans (H _ _ _ _ h))
      · have hc' := Primitives.obeys_startCleanup (fun b => H (.block b)) c (leaves_of_unwound hc)
        exact (Wanes.starting _ c).trans hc'
    have := hstart.le hS (ho.withPending id rest) hr
    omega

/-- A panic that comes past a frame in `S` takes something away from it. -/
theorem wanes_walkStep (hc : ClosesLighter S exec) (code : ErrorCode) :
    Obeys (.ofRel (Wanes S)) (walkStep exec code) := by
  have P := Wanes.primitives S
  have := P.toComposes
  intro m o m' h
  obtain h | ⟨ht, h⟩ := Primitives.leaves_of_torn (Wanes.refl m) (run_walkStep exec m code) h
  · exact h
  · split at h
    · cases h; exact .refl m
    · rename_i f fs hf
      split at h
      · cases h; exact .refl m
      · have hrest : Wanes S (m.note (.step (.passed f.id))) m' :=
          ((H _).bind fun _ => H _) _ _ _ h
        have htidy : Tidy m m' := (Tidy.note _ m).trans hrest.toTidy
        have hd := deeds_trans (.note (.step (.passed f.id)) m) hrest.toGrows.adds
        rw [deeds_note] at hd
        by_cases hid : f.id ∈ S
        · have hlt : (∀ id ∈ S, id < m.thread.frames.nextId) → m.Orderly →
              RegistersNone S (m.deeds m') → m'.weight S < m.weight S := by
            intro hS ho hr
            have hopen : (Frame.find? f.id
                (m.note (.step (.passed f.id))).thread.frames.frames).isSome := by
              show (Frame.find? f.id m.thread.frames.frames).isSome
              rw [hf, Frame.find?_cons_self]
              rfl
            rw [hd, registersNone_append] at hr
            obtain ⟨_, m₁, hx, hw⟩ | ⟨t, hx, _⟩ := leaves_bind.1 h
            · have hclose := H _ _ _ _ (leaves_of_returned hx)
              have hwalk := H _ _ _ _ hw
              rw [deeds_trans hclose.toGrows.adds hwalk.toGrows.adds, registersNone_append] at hr
              have hlt := hc hid hopen ht (leaves_of_returned hx) hS (ho.note _) hr.1.2
              have hle := hwalk.le (fun id hid => Nat.lt_of_lt_of_le (hS id hid) hclose.nextId)
                (hclose.orderly (ho.note _)) hr.1.1
              exact Nat.lt_of_le_of_lt hle hlt
            · have hlt := hc hid hopen ht (leaves_of_unwound hx) hS (ho.note _) hr.1
              exact hlt
          exact ⟨htidy, fun hS ho hr => Nat.le_of_lt (hlt hS ho hr), fun hS ho hr _ => hlt hS ho hr⟩
        · refine Wanes.trans (Wanes.of_le (Tidy.note _ m) ?_ fun _ _ _ => Nat.le_refl _) hrest
          rw [deeds_note]
          intro i hi he
          cases List.mem_singleton.1 he
          exact hid hi

end Jobs

theorem wanes_run (S : List Nat) : ∀ n, (∀ j, Obeys (.ofRel (Machine.Wanes S)) (Job.run n j)) ∧
    ClosesLighter S (Job.run n)
  | 0 => ⟨fun _ => .halt, fun _ _ _ h => (not_leaves_halt h).elim⟩
  | n + 1 => by
    obtain ⟨H, hc⟩ := wanes_run S n
    exact ⟨(Machine.Wanes.primitives S).obeys_step H (wanes_walkStep H hc), closesLighter_step H⟩

/-! ## Sessions -/

/-- Closing down to a base comes to an end where the innermost frame is the base or below it. -/
theorem innermost_of_closeAbove {base : Option Nat} {o : Option Transfer} {m m' : Machine} :
    ∀ {n}, ((Job.run n (.closeAbove base)).run m).Leaves o m' → o = none →
      ∀ f ∈ m'.thread.frames.innermost?, base.any (f.id ≤ ·)
  | 0, h, _ => (not_leaves_halt h).elim
  | n + 1, h, ho => by
    have hstep := run_closeAboveStep (Job.run n) m base
    rw [show (Job.run (n + 1) (.closeAbove base)).run m = _ from hstep] at h
    split at h
    · cases h; cases ho
    · split at h
      · rename_i hf
        cases h
        intro f hmem
        rw [FrameStack.innermost?, hf] at hmem
        cases hmem
      · rename_i g gs hf
        split at h
        · rename_i hbase
          cases h
          intro f hmem
          rw [FrameStack.innermost?, hf] at hmem
          cases hmem
          exact hbase
        · obtain ⟨_, m₁, _, h⟩ | ⟨t, _, rfl⟩ := leaves_bind.1 h
          · exact innermost_of_closeAbove h ho
          · cases ho

/-- A session that returns has closed down to its base, and left the frames so. -/
theorem runBody_eq_returned {exec : Executor} {body : Effect Int32} {s : Int32} {m m' : Machine}
    (h : (runBody exec body).run m = ⟨.returned s, m'⟩) :
    ∃ m₁ m₂, m.thread.torn = false ∧
      (exec (.closeAbove m.innermostId)).run m₁ = ⟨.returned (), m₂⟩ ∧
      m'.thread.frames = m₂.thread.frames := by
  have ht : m.thread.torn = false := by
    rw [run_runBody] at h
    by_cases ht : m.thread.torn = true
    · rw [if_pos ht] at h; cases h
    · simpa using ht
  rw [run_runBody, if_neg (by rw [ht]; exact Bool.false_ne_true)] at h
  obtain ⟨res, m₁, _, h⟩ | ⟨t, _, he⟩ := leaves_bind.1 (leaves_of_returned h)
  · obtain ⟨_, m₂, hc, h⟩ | ⟨t, _, he⟩ := leaves_bind.1 h
    · refine ⟨m₁, m₂, ht, hc, ?_⟩
      obtain ⟨_, m₃, hcs, h⟩ | ⟨t, _, he⟩ := leaves_bind.1 h
      · have hclosed : m₃.thread.frames = m₂.thread.frames := by
          unfold closeSession at hcs
          split at hcs <;> cases hcs <;> rfl
        rw [← hclosed]
        unfold statusOf at h
        split at h <;> cases h <;> rfl
      · cases he
    · cases he
  · cases he

/-- When a session has returned, the open frames were open before. -/
theorem ids_after_session {n : Nat} {status s : Int32} {b : Block} {m m' : Machine}
    (ho : m.Orderly)
    (h : (runBody (Job.run n) (threadBody (Job.run n) status b)).run m = ⟨.returned s, m'⟩) :
    ∀ id ∈ m'.thread.frames.frames.map (·.id), id ∈ m.thread.frames.frames.map (·.id) := by
  have P := Tidy.primitives
  have htidy : Tidy m m' := P.obeys_runBody (P.obeys n)
    (P.obeys_threadBody status (P.obeys n (.block b))) _ _ _ (leaves_of_returned h)
  obtain ⟨m₁, m₂, _, hclose, hframes⟩ := runBody_eq_returned h
  intro id hid
  rcases htidy.novel id hid with hold | hnew
  · exact hold
  · -- The session has come down to its base, so a number that was not given before is closed.
    have hbase := innermost_of_closeAbove (leaves_of_returned hclose) rfl
    have hle := (htidy.orderly ho).le_innermostId hid
    rw [← hframes] at hbase
    unfold Machine.innermostId at hle hbase
    cases hf' : m'.thread.frames.innermost? with
    | none => rw [hf'] at hle; cases hle
    | some f' =>
      have hle' : id ≤ f'.id := by simpa [hf'] using hle
      have hbase := hbase f' hf'
      cases hf : m.thread.frames.innermost? with
      | none => rw [hf] at hbase; cases hbase
      | some f =>
        have hle : f'.id ≤ f.id := by simpa [hf] using hbase
        have hlt := ho.frames.fresh f (List.mem_of_mem_head? hf)
        omega

/-- Frames that were kept, in which nothing was registered, are the same if no other is open. -/
theorem Machine.KeptAmong.frames_eq {m m' : Machine}
    (h : m.KeptAmong (m.thread.frames.frames.map (·.id)) m') (ho : m.Orderly)
    (hids : ∀ id ∈ m'.thread.frames.frames.map (·.id), id ∈ m.thread.frames.frames.map (·.id))
    (hr : RegistersNone (m.thread.frames.frames.map (·.id)) (m.deeds m')) :
    m'.thread.frames.frames = m.thread.frames.frames := by
  refine Frame.eq_of_find? ?_ ho.frames.distinct fun f hf => ?_
  · have hall : ∀ {l : List Nat}, (∀ id ∈ l, id ∈ m.thread.frames.frames.map (·.id)) →
        l.filter (· ∈ m.thread.frames.frames.map (·.id)) = l := fun hl =>
      List.filter_eq_self.2 fun id hid => by simpa using hl id hid
    have hkept := h.ids
    unfold Machine.idsAmong at hkept
    rwa [hall hids, hall fun id hid => hid] at hkept
  · have hid : f.id ∈ m.thread.frames.frames.map (·.id) := List.mem_map_of_mem hf
    obtain ⟨added, hfind, hadded⟩ := h.frame f.id hid f (Frame.find?_of_mem ho.frames.distinct hf)
    have hnone : registeredIn f.id (stepsIn (m.deeds m')) = [] := by
      refine List.eq_nil_iff_forall_not_mem.2 fun c hc => ?_
      obtain ⟨e, he, hes⟩ := List.mem_filterMap.1 (mem_registeredIn.1 hc)
      cases e with
      | step x => cases hes; exact hr f.id hid c he
      | _ => cases hes
    rw [hnone] at hadded
    rwa [List.map_eq_nil_iff.1 hadded] at hfind

/-- A session that returns has kept the frames of its caller, with all that waits in them, if and
only if no panic came past one of them; provided that no guard of these frames was dropped and no
cleanup registered in them. -/
theorem frames_after_session {n : Nat} {status s : Int32} {b : Block} {m m' : Machine}
    (ho : m.Orderly)
    (h : (runBody (Job.run n) (threadBody (Job.run n) status b)).run m = ⟨.returned s, m'⟩)
    (hdrop : ∀ f ∈ m.thread.frames.frames, .log (.leftFrame f.id) ∉ m.deeds m')
    (hreg : ∀ f ∈ m.thread.frames.frames, ∀ c, .step (.registered c (some f.id)) ∉ m.deeds m') :
    m'.thread.frames.frames = m.thread.frames.frames ↔
      ∀ f ∈ m.thread.frames.frames, .step (.passed f.id) ∉ m.deeds m' := by
  let S := m.thread.frames.frames.map (·.id)
  have hmem : ∀ {id}, id ∈ S → ∃ f ∈ m.thread.frames.frames, f.id = id := List.mem_map.1
  have hfresh : ∀ id ∈ S, id < m.thread.frames.nextId := by
    intro id hid
    obtain ⟨f, hf, rfl⟩ := hmem hid
    exact ho.frames.fresh f hf
  have hr : RegistersNone S (m.deeds m') := by
    intro id hid
    obtain ⟨f, hf, rfl⟩ := hmem hid
    exact hreg f hf
  constructor
  · intro heq f hf hpassed
    have P := Machine.Wanes.primitives S
    obtain ⟨H, _⟩ := wanes_run S n
    have hw : m.Wanes S m' := P.obeys_runBody H (P.obeys_threadBody status (H (.block b))) _ _ _
      (leaves_of_returned h)
    have hlt := hw.lt hfresh ho hr fun hp => hp f.id (List.mem_map_of_mem hf) hpassed
    unfold Machine.weight at hlt
    rw [heq] at hlt
    exact Nat.lt_irrefl _ hlt
  · intro hpass
    have hk : m.Keeps S m' := keeps_runBody (Tidy.primitives.obeys n) (keeps_run S n) status b _ _ _
      (leaves_of_returned h)
    have hundisturbed : m.Undisturbed S m' := by
      refine ⟨hfresh, ho, fun id hid => ?_, .inr fun id hid => ?_⟩
      · obtain ⟨f, hf, rfl⟩ := hmem hid
        exact hdrop f hf
      · obtain ⟨f, hf, rfl⟩ := hmem hid
        exact hpass f hf
    obtain ⟨hkept, _⟩ := hk.kept hundisturbed
    exact hkept.frames_eq ho (ids_after_session ho h) hr

end

/-- A machine with an open frame in which a cleanup waits. -/
def withOuterFrame : Machine :=
  ((Job.run 4 (.block [.enter "outer", .leak "outer", .defer [.emit "outer"]])).run
    .initial).machine

/-- A session that panics with nobody to recover. -/
def panickingSession : Outcome Int32 :=
  (runBody (Job.run 8) (threadBody (Job.run 8) 0 [.panic (some .einval)])).run
    withOuterFrame

theorem orderly_withOuterFrame : withOuterFrame.Orderly := by
  refine ⟨⟨List.pairwise_singleton _ _, fun f hf => ?_⟩, by decide⟩
  obtain rfl := List.mem_singleton.1 hf
  decide

theorem spared_panickingSession : ∀ f ∈ withOuterFrame.thread.frames.frames,
    .log (.leftFrame f.id) ∉ withOuterFrame.deeds panickingSession.machine := by
  intro f hf
  obtain rfl := List.mem_singleton.1 hf
  decide

theorem unfilled_panickingSession : ∀ f ∈ withOuterFrame.thread.frames.frames, ∀ c,
    .step (.registered c (some f.id)) ∉ withOuterFrame.deeds panickingSession.machine := by
  intro f hf c hc
  obtain rfl := List.mem_singleton.1 hf
  have hnone : registeredIn 0 (stepsIn (withOuterFrame.deeds panickingSession.machine)) = [] := by
    decide
  have hmem : c ∈ registeredIn 0 (stepsIn (withOuterFrame.deeds panickingSession.machine)) :=
    mem_registeredIn.2 (List.mem_filterMap.2 ⟨_, hc, rfl⟩)
  rw [hnone] at hmem
  cases hmem

/-- The session returns the error code as its status, and the frame of its caller is closed. -/
theorem frames_after_session_panicking :
    panickingSession.ending = .returned 22 ∧
      (panickingSession.machine.thread.frames.frames = withOuterFrame.thread.frames.frames ↔
        ∀ f ∈ withOuterFrame.thread.frames.frames,
          .step (.passed f.id) ∉ withOuterFrame.deeds panickingSession.machine) ∧
      panickingSession.machine.thread.frames.frames ≠ withOuterFrame.thread.frames.frames := by
  have hrun : (runBody (Job.run 8) (threadBody (Job.run 8) 0 [.panic (some .einval)])).run
      withOuterFrame = ⟨.returned 22, panickingSession.machine⟩ := rfl
  refine ⟨rfl, frames_after_session orderly_withOuterFrame hrun spared_panickingSession
    unfilled_panickingSession, ?_⟩
  intro h
  cases h

/-- A session that neither drops the guard of its caller's frame nor registers in the frame has
closed it when it returns, and run the cleanup that waited there. -/
theorem caller_closed_by_panickingSession :
    withOuterFrame.Orderly ∧ panickingSession.ending = .returned 22 ∧
      (∀ f ∈ withOuterFrame.thread.frames.frames,
        .log (.leftFrame f.id) ∉ withOuterFrame.deeds panickingSession.machine) ∧
      (∀ f ∈ withOuterFrame.thread.frames.frames, ∀ c,
        .step (.registered c (some f.id)) ∉ withOuterFrame.deeds panickingSession.machine) ∧
      withOuterFrame.thread.frames.frames.map (·.id) = [0] ∧
      panickingSession.machine.thread.frames.frames.map (·.id) = [] ∧
      startedIn (stepsIn (withOuterFrame.deeds panickingSession.machine)) = [0] :=
  ⟨orderly_withOuterFrame, rfl, spared_panickingSession, unfilled_panickingSession, rfl, rfl, rfl⟩

end NonlocalExit
