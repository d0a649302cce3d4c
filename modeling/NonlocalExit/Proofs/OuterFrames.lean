import NonlocalExit.Proofs.Deeds

/-!
# Frames that were open before

What a run does to frames that were open when it started, those with numbers in `S`.  It may add
cleanups to them.  It closes them only where it drops one of their guards, or where a panic comes
past them; and a panic does not come past them while the innermost of them is marked.
-/

namespace NonlocalExit

variable [Declarations]

open Effect

/-- Whether no guard of a frame in `S` is dropped. -/
def SparesGuards (S : List Nat) (es : List Entry) : Prop := ∀ id, id ∈ S → .log (.leftFrame id) ∉ es

instance (S : List Nat) (es : List Entry) : Decidable (SparesGuards S es) :=
  inferInstanceAs (Decidable (∀ id ∈ S, .log (.leftFrame id) ∉ es))

/-- Whether no panic comes past a frame in `S`. -/
def PassesNone (S : List Nat) (es : List Entry) : Prop := ∀ id, id ∈ S → .step (.passed id) ∉ es

instance (S : List Nat) (es : List Entry) : Decidable (PassesNone S es) :=
  inferInstanceAs (Decidable (∀ id ∈ S, .step (.passed id) ∉ es))

/-- Whether an entry is neither about a panic that passes nor about a cleanup that a frame gets. -/
def Entry.IsNeutral (e : Entry) : Prop :=
  ∀ id, e ≠ .step (.passed id) ∧ ∀ s, e ≠ .step (.registered s (some id))

theorem Entry.IsPlain.isNeutral {e : Entry} (h : e.IsPlain) : e.IsNeutral := by
  refine fun id => ⟨?_, fun s => ?_⟩ <;> rintro rfl <;> exact h

section

variable {S : List Nat} {es es' : List Entry}

theorem sparesGuards_append :
    SparesGuards S (es ++ es') ↔ SparesGuards S es ∧ SparesGuards S es' := by
  simp only [SparesGuards, List.mem_append, not_or]
  exact ⟨fun h => ⟨fun id hid => (h id hid).1, fun id hid => (h id hid).2⟩,
    fun h id hid => ⟨h.1 id hid, h.2 id hid⟩⟩

theorem passesNone_append : PassesNone S (es ++ es') ↔ PassesNone S es ∧ PassesNone S es' := by
  simp only [PassesNone, List.mem_append, not_or]
  exact ⟨fun h => ⟨fun id hid => (h id hid).1, fun id hid => (h id hid).2⟩,
    fun h id hid => ⟨h.1 id hid, h.2 id hid⟩⟩

end

namespace Machine

/-- The numbers of the open frames in `S`, innermost first. -/
def idsAmong (S : List Nat) (m : Machine) : List Nat :=
  (m.thread.frames.frames.map (·.id)).filter (· ∈ S)

theorem idsAmong_congr {S : List Nat} {m m' : Machine}
    (h : m'.thread.frames.frames.map (·.id) = m.thread.frames.frames.map (·.id)) :
    m'.idsAmong S = m.idsAmong S := congrArg (List.filter _) h

/-- Whether the innermost of the open frames in `S` is marked. -/
def IsGuarded (S : List Nat) (m : Machine) : Prop :=
  ∃ id f, (m.idsAmong S).head? = some id ∧ Frame.find? id m.thread.frames.frames = some f ∧
    f.mark.isSome

/-- Whether the same frames in `S` are open, with the same marks and the same cleanups waiting
under those that were registered since. -/
structure KeptAmong (S : List Nat) (m m' : Machine) : Prop where
  ids : m'.idsAmong S = m.idsAmong S
  frame : ∀ id, id ∈ S → ∀ f, Frame.find? id m.thread.frames.frames = some f →
    ∃ added, Frame.find? id m'.thread.frames.frames =
        some { f with pending := added ++ f.pending } ∧
      added.map (·.serial) = registeredIn id (stepsIn (m.deeds m'))

/-- Whether nothing has happened that closes frames in `S`. -/
structure Undisturbed (S : List Nat) (m m' : Machine) : Prop where
  nextId : ∀ id ∈ S, id < m.thread.frames.nextId
  orderly : m.Orderly
  spares : SparesGuards S (m.deeds m')
  guarded : m.IsGuarded S ∨ PassesNone S (m.deeds m')

/-- What runs do to the frames in `S`. -/
structure Keeps (S : List Nat) (m m' : Machine) : Prop extends Tidy m m' where
  kept : m.Undisturbed S m' → m.KeptAmong S m' ∧ PassesNone S (m.deeds m')

namespace KeptAmong

variable {S : List Nat} {m m₁ m' : Machine}

/-- Frames stay as they are where nothing is registered. -/
theorem of_find? (hi : m'.idsAmong S = m.idsAmong S)
    (hf : ∀ id, id ∈ S → Frame.find? id m'.thread.frames.frames =
      Frame.find? id m.thread.frames.frames)
    (hr : ∀ id, id ∈ S → registeredIn id (stepsIn (m.deeds m')) = []) : m.KeptAmong S m' := by
  refine ⟨hi, fun id hid f h => ⟨[], ?_, (hr id hid).symm⟩⟩
  rw [hf id hid, h]
  rfl

theorem trans (h : m.KeptAmong S m₁) (h' : m₁.KeptAmong S m') (hg : Grows m m₁)
    (hg' : Grows m₁ m') : m.KeptAmong S m' := by
  refine ⟨h'.ids.trans h.ids, fun id hid f hf => ?_⟩
  obtain ⟨added, hf₁, hs⟩ := h.frame id hid f hf
  obtain ⟨added', hf', hs'⟩ := h'.frame id hid _ hf₁
  refine ⟨added' ++ added, by rw [hf', List.append_assoc], ?_⟩
  rw [List.map_append, hs, hs', deeds_trans hg.adds hg'.adds, stepsIn_append, registeredIn_append]

theorem isGuarded (h : m.KeptAmong S m') (hg : m.IsGuarded S) : m'.IsGuarded S := by
  obtain ⟨id, f, hid, hf, hm⟩ := hg
  have hlt : id ∈ S := by
    have hmem := List.mem_of_mem_head? hid
    exact of_decide_eq_true (List.mem_filter.1 hmem).2
  obtain ⟨added, hf', _⟩ := h.frame id hlt f hf
  exact ⟨id, _, by rw [h.ids, hid], hf', hm⟩

end KeptAmong

/-- The innermost of all frames is the innermost of those in `S`, if it is in `S`. -/
theorem IsGuarded.mark_isSome {S : List Nat} {m : Machine} {f : Frame Cleanup}
    {fs : List (Frame Cleanup)} (h : m.IsGuarded S) (hf : m.thread.frames.frames = f :: fs)
    (hS : f.id ∈ S) : f.mark.isSome := by
  obtain ⟨id, g, hid, hg, hm⟩ := h
  unfold idsAmong at hid
  rw [hf, List.map_cons, List.filter_cons_of_pos (by simpa using hS)] at hid
  obtain rfl := Option.some.inj hid
  rw [hf, Frame.find?_cons_self] at hg
  cases hg
  exact hm

namespace Keeps

variable {S : List Nat} {m m₁ m' : Machine}

theorem refl (m : Machine) : Keeps S m m := by
  have hd : m.deeds m = [] := deeds_of_journal_eq rfl
  refine ⟨.refl m, fun _ => ⟨.of_find? rfl (fun _ _ => rfl) fun id _ => ?_, ?_⟩⟩
  · rw [hd]; rfl
  · rw [hd]; intro id _; simp

/-- What comes second may rely on what has been kept by what came first. -/
theorem followedBy (h : Keeps S m m₁) (ht : Tidy m₁ m')
    (h' : m.Orderly → m.KeptAmong S m₁ → Keeps S m₁ m') : Keeps S m m' := by
  refine ⟨h.toTidy.trans ht, fun u => ?_⟩
  have hd := deeds_trans h.toGrows.adds ht.toGrows.adds
  obtain ⟨hS, ho, hs, hp⟩ := u
  rw [hd, sparesGuards_append] at hs
  rw [hd, passesNone_append] at hp ⊢
  obtain ⟨hk, hn⟩ := h.kept ⟨hS, ho, hs.2, hp.imp id fun hp => hp.2⟩
  have hS' : ∀ id ∈ S, id < m₁.thread.frames.nextId :=
    fun id hid => Nat.lt_of_lt_of_le (hS id hid) h.nextId
  obtain ⟨hk', hn'⟩ := (h' ho hk).kept ⟨hS', h.orderly ho, hs.1,
    hp.imp hk.isGuarded fun hp => hp.1⟩
  exact ⟨hk.trans hk' h.toGrows ht.toGrows, hn', hn⟩

theorem trans (h : Keeps S m m₁) (h' : Keeps S m₁ m') : Keeps S m m' :=
  h.followedBy h'.toTidy fun _ _ => h'

theorem of_disturbed (h : Tidy m m') (hd : ¬m.Undisturbed S m') : Keeps S m m' :=
  ⟨h, fun u => (hd u).elim⟩

/-- A step that registers nothing and lets no panic pass. -/
theorem of_deeds (ht : Tidy m m') (hd : ∀ e ∈ m.deeds m', e.IsNeutral)
    (hi : (∀ id ∈ S, id < m.thread.frames.nextId) → m'.idsAmong S = m.idsAmong S)
    (hf : (∀ id ∈ S, id < m.thread.frames.nextId) → ∀ id, id ∈ S →
      Frame.find? id m'.thread.frames.frames = Frame.find? id m.thread.frames.frames) :
    Keeps S m m' := by
  refine ⟨ht, fun u => ⟨.of_find? (hi u.nextId) (hf u.nextId) fun id _ => ?_, ?_⟩⟩
  · refine List.eq_nil_iff_forall_not_mem.2 fun s hs => ?_
    obtain ⟨e, he, hes⟩ := List.mem_filterMap.1 (mem_registeredIn.1 hs)
    cases e with
    | step x => cases hes; exact (hd _ he id).2 s rfl
    | _ => cases hes
  · intro id _ he
    exact (hd _ he id).1 rfl

/-- A step that leaves the frames alone. -/
theorem of_frames (ht : Tidy m m') (hf : m'.thread.frames = m.thread.frames)
    (hd : ∀ e ∈ m.deeds m', e.IsNeutral) : Keeps S m m' :=
  of_deeds ht hd (fun _ => by unfold idsAmong; rw [hf]) fun _ id _ => by rw [hf]

theorem note {e : Entry} (h : e.IsNeutral) (m : Machine) : Keeps S m (m.note e) := by
  refine of_frames (.note e m) rfl fun x hx => ?_
  rw [deeds_note] at hx
  obtain rfl := List.mem_singleton.1 hx
  exact h

/-- The guards that blocks hold do not matter. -/
theorem withHeld {held held' : List (List Guard)} (h : Keeps S (m.withHeld held) m') :
    Keeps S m (m'.withHeld held') := by
  refine ⟨((Tidy.withHeld _ _).trans h.toTidy).trans (.withHeld _ _), fun u => ?_⟩
  obtain ⟨hk, hn⟩ := h.kept ⟨u.nextId, u.orderly.withHeld _, u.spares, u.guarded⟩
  exact ⟨⟨hk.ids, hk.frame⟩, hn⟩

theorem of_journal_eq (ht : Tidy m m') (hf : m'.thread.frames = m.thread.frames)
    (hj : m'.shared.journal = m.shared.journal) : Keeps S m m' := by
  refine of_frames ht hf fun e he => ?_
  rw [deeds_of_journal_eq hj] at he
  cases he

theorem tokenTaken (m : Machine) : Keeps S m m.tokenTaken := of_journal_eq (.tokenTaken m) rfl rfl

theorem serialTaken (m : Machine) : Keeps S m m.serialTaken :=
  of_journal_eq (.serialTaken m) rfl rfl

theorem starting (m : Machine) (c : Cleanup) : Keeps S m (m.starting c) := by
  unfold Machine.starting
  split
  · exact (note (by simp [Entry.IsNeutral]) _).trans (note (by simp [Entry.IsNeutral]) _)
  · exact note (by simp [Entry.IsNeutral]) _

/-- A new frame is not among those in `S`. -/
theorem opened (m : Machine) : Keeps S m m.opened := by
  refine of_deeds (.opened m) ?_ (fun hS => ?_) fun hS id hid => ?_
  · rw [deeds_opened]
    simp [Entry.IsNeutral]
  · exact List.filter_cons_of_neg (p := fun i => decide (i ∈ S))
      fun h => Nat.lt_irrefl _ (hS _ (of_decide_eq_true h))
  · exact Frame.find?_cons_of_ne (Nat.ne_of_gt (hS id hid))

theorem rooted (m : Machine) : Keeps S m m.rooted := by
  unfold Machine.rooted
  split
  · exact opened m
  · exact refl m

theorem closed {id : Nat} (hid : id ∉ S) (m : Machine) : Keeps S m (m.closed id) := by
  refine of_deeds (.closed id m) ?_ (fun _ => ?_) fun _ i hi => ?_
  · rw [deeds_closed]
    simp [Entry.IsNeutral]
  · exact Frame.filter_map_id_erase (by simpa using hid)
  · exact Frame.find?_erase_of_ne fun he => hid (he ▸ hi)

theorem started {id : Nat} (hid : id ∉ S) (cs : List Cleanup) (c : Cleanup) (m : Machine) :
    Keeps S m ((m.withPending id cs).starting c) := by
  refine Keeps.trans (of_deeds (.withPending id cs m) ?_ (fun _ => ?_)
    fun _ i hi => ?_) (starting _ _)
  · rw [show m.deeds (m.withPending id cs) = [] from deeds_of_journal_eq rfl]
    simp
  · exact idsAmong_congr (map_id_withPending _)
  · exact find?_withPending_of_ne _ fun he => hid (he ▸ hi)

/-- A panic that comes past a frame outside `S`. -/
theorem passed {id : Nat} (hid : id ∉ S) (m : Machine) :
    Keeps S m (m.note (.step (.passed id))) := by
  refine ⟨.note _ m, fun _ => ⟨.of_find? rfl (fun _ _ => rfl) fun i _ => ?_, ?_⟩⟩
  · rw [deeds_note]; rfl
  · rw [deeds_note]
    intro i hi he
    cases List.mem_singleton.1 he
    exact hid hi

/-- A cleanup that is registered in a frame in `S` waits on top of the others. -/
theorem registered {c : Cleanup} {s : FrameStack Cleanup} (hs : m.thread.frames.add? c = some s) :
    Keeps S m ((m.withFrames s).note (.step (.registered c.serial m.innermostId))) := by
  obtain ⟨f, fs, hf, _, rfl⟩ := FrameStack.add?_eq_some.1 hs
  have hi : m.innermostId = some f.id := by
    unfold innermostId FrameStack.innermost?; rw [hf]; rfl
  have hd : m.deeds ((m.withFrames { m.thread.frames with frames := f.add c :: fs }).note
      (.step (.registered c.serial (some f.id)))) = [.step (.registered c.serial (some f.id))] :=
    deeds_note m _
  rw [hi]
  refine ⟨(Tidy.add hs).trans (.note _ _), fun _ => ⟨⟨?_, fun id _ g hg => ?_⟩, ?_⟩⟩
  · unfold idsAmong
    rw [hf]
    rfl
  · rw [hd]
    rw [hf] at hg
    by_cases hid : f.id = id
    · subst hid
      rw [Frame.find?_cons_self] at hg
      cases hg
      exact ⟨[c], Frame.find?_cons_self, (registeredIn_self (L := [])).symm⟩
    · rw [Frame.find?_cons_of_ne hid] at hg
      refine ⟨[], ?_, (registeredIn_of_ne (L := []) fun he => hid (Option.some.inj he)).symm⟩
      show Frame.find? id (f.add c :: fs) = some g
      rw [Frame.find?_cons_of_ne (show (f.add c).id ≠ id from hid), hg]
  · rw [hd]
    simp [PassesNone]

/-- Other threads have frames of their own. -/
theorem ofThread (hg : Grows m.threadStarted m') : Keeps S m { m' with thread := m.thread } := by
  refine ⟨.ofThread hg, fun u => ?_⟩
  have hd := deeds_ofThread u.orderly.number hg.adds
  refine ⟨.of_find? rfl (fun _ _ => rfl) fun id _ => ?_, ?_⟩
  · rw [hd]; rfl
  · rw [hd]; simp [PassesNone]

/-- A frame that is marked for a while has its earlier mark again. -/
theorem remarked {id token : Nat} (h : Keeps S (m.withMark id (some token)) m') :
    Keeps S m (m'.withMark id ((Frame.find? id m.thread.frames.frames).bind (·.mark))) := by
  have hids : (m.withMark id (some token)).idsAmong S = m.idsAmong S :=
    idsAmong_congr (map_id_withMark _)
  have hfind : ∀ {i f}, Frame.find? i m.thread.frames.frames = some f →
      Frame.find? i (m.withMark id (some token)).thread.frames.frames =
        some (if i = id then f.withMark (some token) else f) := by
    intro i f hf
    by_cases hi : i = id
    · subst hi
      rw [find?_withMark_self, hf, if_pos rfl]
      rfl
    · rw [find?_withMark_of_ne _ hi, hf, if_neg hi]
  refine ⟨((Tidy.withMark _ _ m).trans h.toTidy).trans (.withMark _ _ m'), fun u => ?_⟩
  have hguard : m.IsGuarded S → (m.withMark id (some token)).IsGuarded S := by
    rintro ⟨i, f, hi, hf, hm⟩
    refine ⟨i, _, by rw [hids, hi], hfind hf, ?_⟩
    by_cases he : i = id
    · rw [if_pos he]; rfl
    · rw [if_neg he]; exact hm
  obtain ⟨hk, hn⟩ :=
    h.kept ⟨u.nextId, u.orderly.withMark _ _, u.spares, u.guarded.imp hguard fun hp => hp⟩
  refine ⟨⟨?_, fun i hi f hf => ?_⟩, hn⟩
  · refine Eq.trans ?_ (hk.ids.trans hids)
    exact idsAmong_congr (map_id_withMark _)
  · obtain ⟨added, hf', hr⟩ := hk.frame i hi _ (hfind hf)
    refine ⟨added, ?_, hr⟩
    by_cases he : i = id
    · subst he
      rw [if_pos rfl] at hf'
      rw [find?_withMark_self, hf', hf]
      rfl
    · rw [if_neg he] at hf'
      rw [find?_withMark_of_ne _ he, hf']

theorem withRecovering (rs : List Recovery) (m : Machine) : Keeps S m (m.withRecovering rs) :=
  of_journal_eq (.withRecovering rs m) rfl rfl

theorem recovery (h : Keeps S m.recoveryEntered m') :
    Keeps S m ((m'.withMark m.rootId m.tokenTaken.markFound).withRecovering
      m.thread.recovering) := by
  have hroot : Keeps S m m.tokenTaken.rooted := (tokenTaken m).trans (rooted _)
  exact (hroot.trans (remarked ((withRecovering _ _).trans h))).trans (withRecovering _ _)

/-- All steps but the closing of frames in `S`. -/
theorem primitives (S : List Nat) : Primitives (Keeps S) where
  refl := refl
  trans := trans
  steady h := h.toSteady
  aside h := of_frames (.aside h) h.frames fun e he => (deeds_of_aside h e he).isNeutral
  enteredFrame m _ := note (by simp [Entry.IsNeutral]) m
  intercepted m _ := note (by simp [Entry.IsNeutral]) m
  opened m _ := opened m
  registered m c s _ _ hs := by
    have hroot : Keeps S m m.serialTaken.rooted := (serialTaken m).trans (rooted _)
    exact hroot.trans (m.serialTaken.innermostId_rooted ▸ registered hs)
  registeredLate m c _ _ :=
    ((serialTaken m).trans (note (by simp [Entry.IsNeutral]) _)).trans (starting _ c)
  tokenTaken := tokenTaken
  block h := h.withHeld
  dropped m _ _ _ _ := (refl _).withHeld
  entered m _ _ := ((opened m).trans (note (by simp [Entry.IsNeutral]) _)).trans (refl _).withHeld
  released m _ _ _ _ := (refl _).withHeld
  recovery _ h := recovery h
  thread h := ofThread h

end Keeps

end Machine

/-! ## Jobs -/

/-- Whether a job is not asked to close a frame in `S`. -/
def Job.Spares (S : List Nat) (m : Machine) : Job → Prop
  | .block _ | .walk _ => True
  | .close id => id ∉ S
  | .closeAbove base => ∀ id ∈ m.idsAmong S, base.any (id ≤ ·)

section Jobs

open Machine

variable {S : List Nat} {exec : Executor} {m m' : Machine} {o : Option Transfer}
  (T : ∀ j, Obeys (.ofRel Tidy) (exec j))
  (H : ∀ j m o m', j.Spares S m → ((exec j).run m).Leaves o m' → Keeps S m m')
include T H

theorem keeps_leaveFrame (id : Nat) : Obeys (.ofRel (Keeps S)) (leaveFrame exec id) := by
  intro m o m' h
  have ht : Tidy m m' := Tidy.primitives.obeys_leaveFrame T id _ _ _ h
  rw [run_leaveFrame] at h
  by_cases hid : id ∉ S
  · exact (Keeps.note (by simp [Entry.IsNeutral]) m).trans (H (.close id) _ _ _ hid h)
  · refine Keeps.of_disturbed ht fun u => u.spares id (Decidable.of_not_not hid) ?_
    have hg : Tidy (m.note (.log (.leftFrame id))) m' := T _ _ _ _ h
    rw [deeds_trans (.note _ m) hg.toGrows.adds, deeds_note]
    exact List.mem_append_right _ List.mem_cons_self

omit T in
theorem keeps_closeStep {id : Nat} (hid : id ∉ S) (h : ((closeStep exec id).run m).Leaves o m') :
    Keeps S m m' := by
  have P := Keeps.primitives S
  have HB : ∀ b, Obeys (.ofRel (Keeps S)) (exec (.block b)) := fun b m o m' => H _ m o m' trivial
  obtain h | ⟨ht, h⟩ := Primitives.leaves_of_torn (Keeps.refl m) (run_closeStep exec m id) h
  · exact h
  · cases hf : Frame.find? id m.thread.frames.frames with
    | none => rw [hf] at h; cases h; exact .refl m
    | some f =>
      rw [hf] at h
      dsimp only at h
      cases hp : f.pending with
      | nil => rw [hp] at h; cases h; exact .closed hid m
      | cons c rest =>
        rw [hp] at h
        have hs : Keeps S m ((m.withPending id rest).starting c) := .started hid rest c m
        obtain ⟨_, m₁, hc, h⟩ | ⟨t, hc, _⟩ := leaves_bind.1 h
        · have hc' := Primitives.obeys_startCleanup HB c (leaves_of_returned hc)
          exact hs.trans (hc'.trans (H (.close id) _ _ _ hid h))
        · exact hs.trans (Primitives.obeys_startCleanup HB c (leaves_of_unwound hc))

theorem keeps_closeAboveStep {base : Option Nat} (hb : ∀ id ∈ m.idsAmong S, base.any (id ≤ ·))
    (h : ((closeAboveStep exec base).run m).Leaves o m') : Keeps S m m' := by
  obtain h | ⟨ht, h⟩ := Primitives.leaves_of_torn (Keeps.refl m) (run_closeAboveStep exec m base) h
  · exact h
  · split at h
    · cases h; exact .refl m
    · rename_i f fs hf
      split at h
      · cases h; exact .refl m
      · rename_i hbase
        have hid : f.id ∉ S := by
          refine fun hmem => hbase (hb f.id ?_)
          unfold Machine.idsAmong
          rw [hf]
          exact List.mem_filter.2 ⟨List.mem_cons_self, by simpa using hmem⟩
        obtain ⟨_, m₁, hc, h⟩ | ⟨t, hc, _⟩ := leaves_bind.1 h
        · have hclose := H (.close f.id) _ _ _ hid (leaves_of_returned hc)
          refine hclose.followedBy (T _ _ _ _ h) fun _ hk => ?_
          exact H (.closeAbove base) _ _ _ (by rw [Job.Spares, hk.ids]; exact hb) h
        · exact H (.close f.id) _ _ _ hid (leaves_of_unwound hc)

theorem keeps_walkStep (code : ErrorCode) : Obeys (.ofRel (Keeps S)) (walkStep exec code) := by
  intro m o m' h
  have htidy : Tidy m m' := Tidy.primitives.obeys_walkStep T code _ _ _ h
  obtain h | ⟨ht, h⟩ := Primitives.leaves_of_torn (Keeps.refl m) (run_walkStep exec m code) h
  · exact h
  · split at h
    · cases h; exact .refl m
    · rename_i f fs hf
      split at h
      · cases h; exact .refl m
      · rename_i hmark
        by_cases hid : f.id ∉ S
        · obtain ⟨_, m₁, hc, h⟩ | ⟨t, hc, _⟩ := leaves_bind.1 h
          · have hc' := H (.close f.id) _ _ _ hid (leaves_of_returned hc)
            exact (Keeps.passed hid m).trans (hc'.trans (H (.walk code) _ _ _ trivial h))
          · exact (Keeps.passed hid m).trans (H (.close f.id) _ _ _ hid (leaves_of_unwound hc))
        · refine Keeps.of_disturbed htidy fun u => ?_
          have hmem := Decidable.of_not_not hid
          rcases u.guarded with hg | hp
          · have := hg.mark_isSome hf hmem
            rw [hmark] at this
            cases this
          · have := Tidy.primitives.toComposes
            have hrest : Tidy (m.note (.step (.passed f.id))) m' :=
              ((T _).bind fun _ => T _) _ _ _ h
            refine hp f.id hmem ?_
            rw [deeds_trans (.note _ m) hrest.toGrows.adds, deeds_note]
            exact List.mem_append_right _ List.mem_cons_self

omit H in
theorem tidy_endSession (base : Option Nat) (owner : Bool) (res : Except Transfer Int32) :
    Obeys (.ofRel Tidy) (endSession exec base owner res) := by
  have := Tidy.primitives.toComposes
  exact (T _).bind fun _ => (Tidy.primitives.obeys_closeSession _).bind fun _ =>
    Tidy.primitives.obeys_statusOf _

/-- The base of a session is the innermost frame, so the session closes none of those below. -/
theorem keeps_runBody (status : Int32) (b : Block) :
    Obeys (.ofRel (Keeps S)) (runBody exec (threadBody exec status b)) := by
  have P := Keeps.primitives S
  have := P.toComposes
  intro m o m' h
  obtain h | ⟨ht, h⟩ := Primitives.leaves_of_torn (Keeps.refl m) (run_runBody exec m _) h
  · exact h
  · obtain ⟨res, m₁, hb, h⟩ | ⟨t, hb, _⟩ := leaves_bind.1 h
    · have hbody : Keeps S m.sessionEntered m₁ :=
        (P.obeys_threadBody status fun m o m' => H (.block b) m o m' trivial).catchUnwind _ _ _
          (leaves_of_returned hb)
      refine ((P.sessionEntered ht).trans hbody).followedBy (tidy_endSession T _ _ _ _ _ _ h)
        fun ho hk => ?_
      have hbase : ∀ id ∈ m₁.idsAmong S, m.innermostId.any (id ≤ ·) := by
        rw [hk.ids]
        exact fun id hid => ho.le_innermostId (List.mem_filter.1 hid).1
      have hend : Obeys (.ofRel (Keeps S)) (closeSession (!m.thread.initialised) >>= fun _ =>
          statusOf res) := (P.obeys_closeSession _).bind fun _ => P.obeys_statusOf _
      obtain ⟨_, m₂, hc, h⟩ | ⟨t, hc, _⟩ := leaves_bind.1 h
      · exact (H (.closeAbove _) _ _ _ hbase (leaves_of_returned hc)).trans (hend _ _ _ h)
      · exact H (.closeAbove _) _ _ _ hbase (leaves_of_unwound hc)
    · cases (leaves_catchUnwind.1 (leaves_of_unwound hb)).2

theorem keeps_step (j : Job) (hj : j.Spares S m) (h : ((j.step exec).run m).Leaves o m') :
    Keeps S m m' := by
  have P := Keeps.primitives S
  cases j with
  | block b =>
    have G := P.governs (fun b m o m' => H (.block b) m o m' trivial) (keeps_leaveFrame T H)
      (fun code m o m' => H (.walk code) m o m' trivial) (keeps_runBody T H)
    exact P.obeys_asBlock (keeps_leaveFrame T H) (G.performAll b) _ _ _ h
  | close id => exact keeps_closeStep H hj h
  | closeAbove base => exact keeps_closeAboveStep T H hj h
  | walk code => exact keeps_walkStep T H code _ _ _ h

end Jobs

/-- Every run keeps the frames in `S`, unless it is asked to close them. -/
theorem keeps_run (S : List Nat) : ∀ n j m o m', j.Spares S m →
    ((Job.run n j).run m).Leaves o m' → m.Keeps S m'
  | 0, _, _, _, _, _, h => (Effect.not_leaves_halt h).elim
  | n + 1, j, _, _, _, hj, h => keeps_step (Tidy.primitives.obeys n) (keeps_run S n) j hj h

end NonlocalExit
