import NonlocalExit.Proofs.Steady

/-!
# Frames that are known by their numbers

The frames of a thread are numbered from the outermost inward, so looking a frame up, changing it
and removing it speak of one frame.  `Machine.Orderly` is kept by every operation.
-/

namespace NonlocalExit

namespace Frame

variable {α : Type} {id id' : Nat} {f : Frame α} {fs : List (Frame α)}

/-- The cleanups that wait in the frame with a given number. -/
def waiting (id : Nat) (fs : List (Frame α)) : List α := ((find? id fs).map (·.pending)).getD []

theorem id_of_find? : ∀ {fs : List (Frame α)}, find? id fs = some f → f.id = id
  | g :: gs, h => by
    unfold find? at h
    split at h
    · cases h; assumption
    · exact id_of_find? h

theorem mem_of_find? : ∀ {fs : List (Frame α)}, find? id fs = some f → f ∈ fs
  | g :: gs, h => by
    unfold find? at h
    split at h
    · cases h; exact List.mem_cons_self
    · exact List.mem_cons_of_mem _ (mem_of_find? h)

theorem find?_eq_none : find? id fs = none ↔ ∀ f ∈ fs, f.id ≠ id := by
  induction fs with
  | nil => simp [find?]
  | cons g gs ih =>
    by_cases h : g.id = id <;> simp [find?, h, ih]

theorem find?_cons_self : find? f.id (f :: fs) = some f := by simp [find?]

theorem find?_cons_of_ne (h : f.id ≠ id) : find? id (f :: fs) = find? id fs := by simp [find?, h]

/-- Whether no two frames have the same number. -/
def Distinct (fs : List (Frame α)) : Prop := fs.Pairwise fun f g => f.id ≠ g.id

theorem find?_of_mem (hd : Distinct fs) (hf : f ∈ fs) : find? f.id fs = some f := by
  induction fs with
  | nil => cases hf
  | cons g gs ih =>
    obtain rfl | hf := List.mem_cons.1 hf
    · exact find?_cons_self
    · rw [find?_cons_of_ne ((List.pairwise_cons.1 hd).1 f hf)]
      exact ih (List.pairwise_cons.1 hd).2 hf

theorem find?_eq_some (hd : Distinct fs) : find? id fs = some f ↔ f ∈ fs ∧ f.id = id :=
  ⟨fun h => ⟨mem_of_find? h, id_of_find? h⟩, fun ⟨hf, hid⟩ => hid ▸ find?_of_mem hd hf⟩

theorem find?_reverse (hd : Distinct fs) : find? id fs.reverse = find? id fs := by
  have hd' : Distinct fs.reverse := List.pairwise_reverse.2 (hd.imp Ne.symm)
  ext f
  rw [find?_eq_some hd, find?_eq_some hd', List.mem_reverse]

theorem eq_of_find? {gs : List (Frame α)} (hi : gs.map (·.id) = fs.map (·.id)) (hd : Distinct fs)
    (hf : ∀ f ∈ fs, find? f.id gs = some f) : gs = fs := by
  induction fs generalizing gs with
  | nil => exact List.map_eq_nil_iff.1 hi
  | cons f fs ih =>
    obtain ⟨hne, hd⟩ := List.pairwise_cons.1 hd
    cases gs with
    | nil => cases hi
    | cons g gs =>
      obtain ⟨hid, hrest⟩ := List.cons.inj hi
      have hfg := hf f List.mem_cons_self
      rw [← show g.id = f.id from hid, find?_cons_self] at hfg
      cases hfg
      refine congrArg _ (ih hrest hd fun x hx => ?_)
      have := hf x (List.mem_cons_of_mem _ hx)
      rwa [find?_cons_of_ne (hne x hx)] at this

theorem find?_update_self {c : Frame α → Frame α} (hc : ∀ f, (c f).id = f.id) :
    find? id (update id c fs) = (find? id fs).map c := by
  induction fs with
  | nil => rfl
  | cons g gs ih =>
    by_cases h : g.id = id
    · simp [update, find?, hc, h]
    · simp [update, find?, h, ih]

theorem find?_update_of_ne {c : Frame α → Frame α} (hc : ∀ f, (c f).id = f.id) (h : id' ≠ id) :
    find? id' (update id c fs) = find? id' fs := by
  induction fs with
  | nil => rfl
  | cons g gs ih =>
    by_cases hg : g.id = id
    · have hne : ¬g.id = id' := fun he => h (he.symm.trans hg)
      have hne' : ¬id = id' := fun he => h he.symm
      simp [update, find?, hc, hg, hne']
    · simp [update, find?, hg, ih]

theorem find?_erase_of_ne (h : id' ≠ id) : find? id' (erase id fs) = find? id' fs := by
  induction fs with
  | nil => rfl
  | cons g gs ih =>
    by_cases hg : g.id = id
    · have hne : ¬id = id' := fun he => h he.symm
      simp [erase, find?, hg, hne]
    · simp [erase, find?, hg, ih]

theorem find?_erase_self (hd : Distinct fs) : find? id (erase id fs) = none := by
  induction fs with
  | nil => rfl
  | cons g gs ih =>
    obtain ⟨hne, hd⟩ := List.pairwise_cons.1 hd
    by_cases hg : g.id = id
    · simp only [erase, hg, ↓reduceIte, find?_eq_none]
      intro f hf he
      exact hne f hf (hg.trans he.symm)
    · simp [erase, find?, hg, ih hd]

theorem map_id_update {c : Frame α → Frame α} (hc : ∀ f, (c f).id = f.id) :
    (update id c fs).map (·.id) = fs.map (·.id) := by
  induction fs with
  | nil => rfl
  | cons g gs ih =>
    by_cases hg : g.id = id
    · simp [update, hg, hc]
    · simp [update, hg, ih]

theorem filter_map_id_erase {p : Nat → Bool} (h : ¬p id) :
    ((erase id fs).map (·.id)).filter p = (fs.map (·.id)).filter p := by
  induction fs with
  | nil => rfl
  | cons g gs ih =>
    by_cases hg : g.id = id
    · rw [erase, if_pos hg, List.map_cons, List.filter_cons_of_neg (hg ▸ h)]
    · rw [erase, if_neg hg, List.map_cons, List.map_cons, List.filter_cons, List.filter_cons, ih]

theorem erase_sublist : (erase id fs).Sublist fs := by
  induction fs with
  | nil => exact .slnil
  | cons g gs ih =>
    unfold erase
    split
    · exact List.sublist_cons_self _ _
    · exact ih.cons_cons _

theorem update_eq_self {c : Frame α → Frame α} (h : ∀ f ∈ fs, f.id ≠ id) :
    update id c fs = fs := by
  induction fs with
  | nil => rfl
  | cons g gs ih =>
    rw [update, if_neg (h g List.mem_cons_self), ih fun f hf => h f (List.mem_cons_of_mem _ hf)]

theorem waiting_of_find? (h : find? id fs = some f) : waiting id fs = f.pending := by
  simp [waiting, h]

theorem waiting_withMark {mark : Option Nat} :
    waiting id' (update id (·.withMark mark) fs) = waiting id' fs := by
  unfold waiting
  by_cases h : id' = id
  · subst h
    rw [find?_update_self (c := (·.withMark mark)) fun f => rfl]
    cases find? id' fs <;> rfl
  · rw [find?_update_of_ne (c := (·.withMark mark)) (fun f => rfl) h]

end Frame

/-- Whether the frames of a stack are numbered from the outermost inward, below the next number. -/
structure FrameStack.Ordered {α : Type} (s : FrameStack α) : Prop where
  descending : s.frames.Pairwise fun f g => g.id < f.id
  fresh : ∀ f ∈ s.frames, f.id < s.nextId

namespace FrameStack.Ordered

variable {α : Type} {s : FrameStack α}

theorem distinct (h : s.Ordered) : Frame.Distinct s.frames :=
  h.descending.imp fun hlt he => by omega

theorem empty : (FrameStack.empty : FrameStack α).Ordered := ⟨.nil, by simp [FrameStack.empty]⟩

theorem push (h : s.Ordered) : s.push.2.Ordered := by
  refine ⟨List.pairwise_cons.2 ⟨h.fresh, h.descending⟩, fun f hf => ?_⟩
  show f.id < s.nextId + 1
  obtain rfl | hf := List.mem_cons.1 hf
  · exact Nat.lt_succ_self _
  · exact Nat.lt_succ_of_lt (h.fresh f hf)

theorem of_map_id (h : s.Ordered) {fs : List (Frame α)}
    (hfs : fs.map (·.id) = s.frames.map (·.id)) : Ordered { s with frames := fs } := by
  have hd : (fs.map (·.id)).Pairwise fun i j => j < i := by
    rw [hfs]
    exact List.pairwise_map.2 h.descending
  refine ⟨List.pairwise_map.1 hd, fun f hf => ?_⟩
  have hmem : f.id ∈ s.frames.map (·.id) := hfs ▸ List.mem_map_of_mem hf
  obtain ⟨g, hg, hid⟩ := List.mem_map.1 hmem
  exact hid ▸ h.fresh g hg

theorem update (h : s.Ordered) (id : Nat) {c : Frame α → Frame α} (hc : ∀ f, (c f).id = f.id) :
    Ordered { s with frames := Frame.update id c s.frames } := h.of_map_id (Frame.map_id_update hc)

theorem erase (h : s.Ordered) (id : Nat) :
    Ordered { s with frames := Frame.erase id s.frames } :=
  ⟨h.descending.sublist Frame.erase_sublist, fun f hf => h.fresh f (Frame.erase_sublist.subset hf)⟩

theorem emptied (n : Nat) : Ordered (⟨[], n⟩ : FrameStack α) := ⟨.nil, by simp⟩

end FrameStack.Ordered

/-- A cleanup is added to the innermost frame if there is room. -/
theorem FrameStack.add?_eq_some {α : Type} {s s' : FrameStack α} {c : α} :
    s.add? c = some s' ↔ ∃ f fs, s.frames = f :: fs ∧ f.hasRoom ∧
      s' = { s with frames := f.add c :: fs } := by
  unfold FrameStack.add?
  cases h : s.frames with
  | nil => simp
  | cons f fs =>
    by_cases hr : f.hasRoom = true
    · simp only [hr, ↓reduceIte]
      constructor
      · rintro ⟨⟩; exact ⟨f, fs, rfl, hr, rfl⟩
      · rintro ⟨_, _, ⟨⟩, _, rfl⟩; rfl
    · simp only [hr, Bool.false_eq_true, ↓reduceIte]
      constructor
      · rintro ⟨⟩
      · rintro ⟨_, _, ⟨⟩, h, _⟩; exact absurd h hr

theorem FrameStack.Ordered.add {α : Type} {s s' : FrameStack α} {c : α} (h : s.Ordered)
    (hs : s.add? c = some s') : s'.Ordered := by
  obtain ⟨f, fs, hf, _, rfl⟩ := FrameStack.add?_eq_some.1 hs
  exact h.of_map_id (by rw [hf]; rfl)

variable [Declarations]

namespace Machine

/-- The numbers of the open frames, innermost first. -/
def openIds (m : Machine) : List Nat := m.thread.frames.frames.map (·.id)

variable {m : Machine} {id id' : Nat}

theorem find?_withMark_self (mark : Option Nat) :
    Frame.find? id (m.withMark id mark).thread.frames.frames =
      (Frame.find? id m.thread.frames.frames).map (·.withMark mark) :=
  Frame.find?_update_self (c := (·.withMark mark)) fun _ => rfl

theorem find?_withMark_of_ne (mark : Option Nat) (h : id' ≠ id) :
    Frame.find? id' (m.withMark id mark).thread.frames.frames =
      Frame.find? id' m.thread.frames.frames :=
  Frame.find?_update_of_ne (c := (·.withMark mark)) (fun _ => rfl) h

theorem map_id_withMark (mark : Option Nat) :
    (m.withMark id mark).thread.frames.frames.map (·.id) = m.thread.frames.frames.map (·.id) :=
  Frame.map_id_update (c := (·.withMark mark)) fun _ => rfl

theorem find?_withPending_self (cs : List Cleanup) :
    Frame.find? id (m.withPending id cs).thread.frames.frames =
      (Frame.find? id m.thread.frames.frames).map (·.withPending cs) :=
  Frame.find?_update_self (c := (·.withPending cs)) fun _ => rfl

theorem find?_withPending_of_ne (cs : List Cleanup) (h : id' ≠ id) :
    Frame.find? id' (m.withPending id cs).thread.frames.frames =
      Frame.find? id' m.thread.frames.frames :=
  Frame.find?_update_of_ne (c := (·.withPending cs)) (fun _ => rfl) h

theorem map_id_withPending (cs : List Cleanup) :
    (m.withPending id cs).thread.frames.frames.map (·.id) = m.thread.frames.frames.map (·.id) :=
  Frame.map_id_update (c := (·.withPending cs)) fun _ => rfl

end Machine

theorem Machine.innermostId_of_cons {m : Machine} {f : Frame Cleanup} {fs : List (Frame Cleanup)}
    (hf : m.thread.frames.frames = f :: fs) : m.innermostId = some f.id := by
  unfold Machine.innermostId FrameStack.innermost?
  simp [hf]

theorem Machine.mem_openIds_of_innermostId {m : Machine} {id : Nat} (h : m.innermostId = some id) :
    id ∈ m.openIds := by
  cases hf : m.thread.frames.frames with
  | nil => simp [innermostId, FrameStack.innermost?, hf] at h
  | cons f fs =>
    rw [innermostId_of_cons hf] at h
    simp [openIds, hf, ← Option.some.inj h]

theorem Machine.not_mem_openIds_of_find? {m : Machine} {id : Nat}
    (h : Frame.find? id m.thread.frames.frames = none) : id ∉ m.openIds := by
  intro hid
  obtain ⟨f, hf, he⟩ := List.mem_map.1 hid
  exact Frame.find?_eq_none.1 h f hf he

theorem Machine.rootId_eq {m : Machine} {id : Nat} (h : m.innermostId = some id) :
    m.rootId = id := by
  unfold Machine.rootId
  rw [show m.thread.frames.innermost?.map (·.id) = some id from h]
  rfl

/-- Whether frames are numbered in order and the thread has a number of its own. -/
structure Machine.Orderly (m : Machine) : Prop where
  frames : m.thread.frames.Ordered
  number : m.thread.number < m.shared.nextThread

namespace Machine.Orderly

variable {m m' : Machine}

/-- The innermost frame has the greatest number. -/
theorem le_innermostId (h : m.Orderly) {id : Nat} (hid : id ∈ m.thread.frames.frames.map (·.id)) :
    m.innermostId.any (id ≤ ·) := by
  obtain ⟨f, hf, rfl⟩ := List.mem_map.1 hid
  have hd := h.frames.descending
  unfold innermostId FrameStack.innermost?
  cases hfs : m.thread.frames.frames with
  | nil => rw [hfs] at hf; cases hf
  | cons g gs =>
    rw [hfs] at hf hd
    obtain rfl | hf := List.mem_cons.1 hf
    · simp
    · have := (List.pairwise_cons.1 hd).1 f hf
      simp only [List.head?_cons, Option.map_some, Option.any_some, decide_eq_true_eq]
      omega

theorem of_aside (a : Aside m m') (h : m.Orderly) : m'.Orderly :=
  ⟨a.frames ▸ h.frames, by rw [a.number, a.nextThread]; exact h.number⟩

theorem note (h : m.Orderly) (e : Entry) : (m.note e).Orderly := ⟨h.frames, h.number⟩

theorem withFrames {s : FrameStack Cleanup} (h : m.Orderly) (hs : s.Ordered) :
    (m.withFrames s).Orderly := ⟨hs, h.number⟩

theorem withHeld (h : m.Orderly) (held : List (List Guard)) : (m.withHeld held).Orderly :=
  ⟨h.frames, h.number⟩

theorem withRecovering (h : m.Orderly) (rs : List Recovery) : (m.withRecovering rs).Orderly :=
  ⟨h.frames, h.number⟩

theorem opened (h : m.Orderly) : m.opened.Orderly := (h.withFrames h.frames.push).note _

theorem rooted (h : m.Orderly) : m.rooted.Orderly := by
  unfold Machine.rooted
  split
  · exact h.opened
  · exact h

theorem closed (h : m.Orderly) (id : Nat) : (m.closed id).Orderly :=
  (h.withFrames (h.frames.erase id)).note _

theorem withPending (h : m.Orderly) (id : Nat) (cs : List Cleanup) :
    (m.withPending id cs).Orderly := h.withFrames (h.frames.update id fun _ => rfl)

theorem withMark (h : m.Orderly) (id : Nat) (mark : Option Nat) : (m.withMark id mark).Orderly :=
  h.withFrames (h.frames.update id fun _ => rfl)

theorem serialTaken (h : m.Orderly) : m.serialTaken.Orderly := ⟨h.frames, h.number⟩

theorem tokenTaken (h : m.Orderly) : m.tokenTaken.Orderly := ⟨h.frames, h.number⟩

theorem recoveryEntered (h : m.Orderly) : m.recoveryEntered.Orderly :=
  ((h.tokenTaken.rooted).withMark _ _).withRecovering _

theorem threadStarted (m : Machine) : m.threadStarted.Orderly := ⟨.empty, Nat.lt_succ_self _⟩

theorem tornDown (h : m.Orderly) : m.tornDown.Orderly := ⟨.emptied _, h.number⟩

/-- A thread that waits comes back to its frames, and is still not the next one. -/
theorem ofThread (h : m.Orderly) (hg : Grows m.threadStarted m') :
    Orderly { m' with thread := m.thread } :=
  ⟨h.frames, Nat.lt_of_lt_of_le h.number (Nat.le_of_succ_le hg.nextThread)⟩

end Machine.Orderly

/-- What every run keeps, with the order of the frames: those that are open were open before, or
have a number that was not given before. -/
structure Tidy (m m' : Machine) : Prop extends Steady m m' where
  orderly : m.Orderly → m'.Orderly
  novel : ∀ id ∈ m'.thread.frames.frames.map (·.id),
    id ∈ m.thread.frames.frames.map (·.id) ∨ m.thread.frames.nextId ≤ id

namespace Tidy

variable {m m₁ m' : Machine}

theorem refl (m : Machine) : Tidy m m := ⟨.refl m, id, fun _ => .inl⟩

theorem trans (h : Tidy m m₁) (h' : Tidy m₁ m') : Tidy m m' := by
  refine ⟨h.toSteady.trans h'.toSteady, fun ho => h'.orderly (h.orderly ho), fun id hid => ?_⟩
  rcases h'.novel id hid with hid | hid
  · exact h.novel id hid
  · exact .inr (Nat.le_trans h.nextId hid)

theorem of_ids (hs : Steady m m') (ho : m.Orderly → m'.Orderly)
    (hi : m'.thread.frames.frames.map (·.id) = m.thread.frames.frames.map (·.id)) : Tidy m m' :=
  ⟨hs, ho, fun _ hid => .inl (hi ▸ hid)⟩

theorem note (e : Entry) (m : Machine) : Tidy m (m.note e) := of_ids (.note e m) (·.note e) rfl

theorem withHeld (held : List (List Guard)) (m : Machine) : Tidy m (m.withHeld held) :=
  of_ids (.withHeld held m) (·.withHeld held) rfl

theorem withRecovering (rs : List Recovery) (m : Machine) : Tidy m (m.withRecovering rs) :=
  of_ids (.withRecovering rs m) (·.withRecovering rs) rfl

theorem withMark (id : Nat) (mark : Option Nat) (m : Machine) : Tidy m (m.withMark id mark) :=
  of_ids (.withMark id mark m) (·.withMark id mark) (Machine.map_id_withMark mark)

theorem withPending (id : Nat) (cs : List Cleanup) (m : Machine) : Tidy m (m.withPending id cs) :=
  of_ids (.withPending id cs m) (·.withPending id cs) (Machine.map_id_withPending cs)

theorem tokenTaken (m : Machine) : Tidy m m.tokenTaken := of_ids (.tokenTaken m) (·.tokenTaken) rfl

theorem serialTaken (m : Machine) : Tidy m m.serialTaken :=
  of_ids (.serialTaken m) (·.serialTaken) rfl

theorem starting (c : Cleanup) (m : Machine) : Tidy m (m.starting c) := by
  unfold Machine.starting
  split
  · exact (note _ _).trans (note _ _)
  · exact note _ _

theorem add {c : Cleanup} {s : FrameStack Cleanup} (hs : m.thread.frames.add? c = some s) :
    Tidy m (m.withFrames s) := by
  refine of_ids (.add hs) (fun h => h.withFrames (h.frames.add hs)) ?_
  obtain ⟨f, fs, hf, _, rfl⟩ := FrameStack.add?_eq_some.1 hs
  rw [hf]
  rfl

theorem opened (m : Machine) : Tidy m m.opened := by
  refine ⟨.opened m, (·.opened), fun id hid => ?_⟩
  obtain rfl | hid := List.mem_cons.1 hid
  · exact .inr (Nat.le_refl _)
  · exact .inl hid

theorem rooted (m : Machine) : Tidy m m.rooted := by
  unfold Machine.rooted
  split
  · exact opened m
  · exact refl m

theorem closed (id : Nat) (m : Machine) : Tidy m (m.closed id) :=
  ⟨.closed id m, (·.closed id), fun _ hi => .inl ((Frame.erase_sublist.map _).subset hi)⟩

theorem ofThread (h : Grows m.threadStarted m') : Tidy m { m' with thread := m.thread } :=
  of_ids (.ofThread h) (·.ofThread h) rfl

theorem aside (h : Aside m m') : Tidy m m' := of_ids h.steady (·.of_aside h) (by rw [h.frames])

theorem recoveryEntered (m : Machine) : Tidy m m.recoveryEntered :=
  (((tokenTaken m).trans (rooted _)).trans (withMark _ _ _)).trans (withRecovering _ _)

theorem primitives : AllPrimitives Tidy where
  refl := refl
  trans := trans
  steady h := h.toSteady
  aside := aside
  enteredFrame m _ := note _ m
  leftFrame m _ := note _ m
  passed m _ := note _ m
  intercepted m _ := note _ m
  opened m _ := opened m
  closed m id _ _ _ _ := closed id m
  started m id _ c rest _ _ _ := (withPending id rest m).trans (starting c _)
  registered m _ _ _ _ hs := (((serialTaken m).trans (rooted _)).trans (add hs)).trans (note _ _)
  registeredLate m c _ _ := ((serialTaken m).trans (note _ _)).trans (starting c _)
  tokenTaken := tokenTaken
  block h := ((withHeld _ _).trans h).trans (withHeld _ _)
  dropped m _ _ _ _ := withHeld _ m
  entered m _ _ := ((opened m).trans (note _ _)).trans (withHeld _ _)
  released m _ _ _ _ := withHeld _ m
  recovery _ h := (((recoveryEntered _).trans h).trans (withMark _ _ _)).trans (withRecovering _ _)
  thread := ofThread

end Tidy

end NonlocalExit
