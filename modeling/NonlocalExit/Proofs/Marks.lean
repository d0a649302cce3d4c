import NonlocalExit.Proofs.Frames
import NonlocalExit.Proofs.Visits

/-!
# Recovery marks

`Machine.Marked`: every open frame carries the token of the newest recovery that aims at it, and
recoveries are nested like their frames, as far as these are still open.  Every run keeps it.  So
the first mark that a panic meets is that of the newest recovery whose frame is open,
`Machine.aim?`.
-/

namespace NonlocalExit

open Effect

/-- The mark that recoveries give a frame: the token of the newest one that aims at it. -/
def markFor (rs : List Recovery) (id : Nat) : Option Nat :=
  (rs.find? fun r => r.frame = id).map (·.token)

theorem markFor_cons_self {rs : List Recovery} {id token : Nat} :
    markFor (⟨token, id⟩ :: rs) id = some token := by simp [markFor]

theorem markFor_cons_of_ne {rs : List Recovery} {id : Nat} {r : Recovery} (h : r.frame ≠ id) :
    markFor (r :: rs) id = markFor rs id := by simp [markFor, h]

theorem markFor_eq_none {rs : List Recovery} {id : Nat} (h : ∀ r ∈ rs, r.frame ≠ id) :
    markFor rs id = none := by
  rw [markFor, Option.map_eq_none_iff, List.find?_eq_none]
  simpa using h

theorem Frame.mem_update {α : Type} {id : Nat} {c : Frame α → Frame α} {f' : Frame α}
    {fs : List (Frame α)} (hd : Distinct fs) (h : f' ∈ update id c fs) :
    (f' ∈ fs ∧ f'.id ≠ id) ∨ ∃ f ∈ fs, f.id = id ∧ f' = c f := by
  induction fs with
  | nil => cases h
  | cons g gs ih =>
    obtain ⟨hne, hd⟩ := List.pairwise_cons.1 hd
    unfold update at h
    split at h
    · rename_i hg
      obtain rfl | h := List.mem_cons.1 h
      · exact .inr ⟨g, List.mem_cons_self, hg, rfl⟩
      · exact .inl ⟨List.mem_cons_of_mem _ h, fun he => hne f' h (hg.trans he.symm)⟩
    · rename_i hg
      obtain rfl | h := List.mem_cons.1 h
      · exact .inl ⟨List.mem_cons_self, hg⟩
      · rcases ih hd h with ⟨h, hne⟩ | ⟨f, hf, hfc⟩
        · exact .inl ⟨List.mem_cons_of_mem _ h, hne⟩
        · exact .inr ⟨f, List.mem_cons_of_mem _ hf, hfc⟩

variable [Declarations]

namespace Machine

/-- Whether the open frames carry the marks of the recoveries under way. -/
structure Marked (m : Machine) : Prop where
  orderly : m.Orderly
  mark : ∀ f ∈ m.thread.frames.frames, f.mark = markFor m.thread.recovering f.id
  known : ∀ r ∈ m.thread.recovering,
    r.frame < m.thread.frames.nextId ∧ r.token < m.shared.nextToken
  newest : m.thread.recovering.Pairwise fun r r' => r'.token < r.token
  nested : m.thread.recovering.Pairwise fun r r' => r'.frame ∈ m.openIds → r'.frame ≤ r.frame
  torn : m.thread.torn = true → m.thread.frames.frames = []

/-- Runs that end keep the recoveries under way, and the marks. -/
structure Marking (m m' : Machine) : Prop extends Tidy m m' where
  recovering : m'.thread.recovering = m.thread.recovering
  marked : m.Marked → m'.Marked

namespace Marked

variable {m m' : Machine}

/-- Frames may change as long as they keep their marks, and new ones have none. -/
theorem of_frames (h : m.Marked) (ht : Tidy m m')
    (hr : m'.thread.recovering = m.thread.recovering)
    (hf : ∀ f' ∈ m'.thread.frames.frames,
      (∃ f ∈ m.thread.frames.frames, f'.id = f.id ∧ f'.mark = f.mark) ∨
        m.thread.frames.nextId ≤ f'.id ∧ f'.mark = none)
    (htorn : m'.thread.torn = true → m'.thread.frames.frames = []) : m'.Marked := by
  refine ⟨ht.orderly h.orderly, fun f' hf' => ?_, ?_, ?_, ?_, htorn⟩
  · rw [hr]
    rcases hf f' hf' with ⟨f, hmem, hid, hmark⟩ | ⟨hid, hmark⟩
    · rw [hmark, hid, h.mark f hmem]
    · rw [hmark, markFor_eq_none]
      intro r hrmem he
      have := (h.known r hrmem).1
      omega
  · rw [hr]
    exact fun r hmem => ⟨Nat.lt_of_lt_of_le (h.known r hmem).1 ht.nextId,
      Nat.lt_of_lt_of_le (h.known r hmem).2 ht.nextToken⟩
  · rw [hr]
    exact h.newest
  · rw [hr]
    refine h.nested.imp_of_mem fun {r r'} _ hmem hle hopen => ?_
    rcases ht.novel _ hopen with hopen | hge
    · exact hle hopen
    · have := (h.known r' hmem).1
      omega

theorem of_same (h : m.Marked) (ht : Tidy m m') (hf : m'.thread.frames = m.thread.frames)
    (hr : m'.thread.recovering = m.thread.recovering) : m'.Marked := by
  refine h.of_frames ht hr (fun f hmem => .inl ⟨f, hf ▸ hmem, rfl, rfl⟩) fun htorn => ?_
  rw [hf]
  exact h.torn (ht.torn.symm.trans htorn)

theorem note (h : m.Marked) (e : Entry) : (m.note e).Marked := h.of_same (.note e m) rfl rfl

theorem opened (h : m.Marked) (ht : m.thread.torn = false) : m.opened.Marked := by
  refine h.of_frames (.opened m) rfl (fun f hf => ?_) fun htorn => ?_
  · obtain rfl | hf := List.mem_cons.1 hf
    · exact .inr ⟨Nat.le_refl _, rfl⟩
    · exact .inl ⟨f, hf, rfl, rfl⟩
  · rw [show m.opened.thread.torn = m.thread.torn from rfl, ht] at htorn
    cases htorn

theorem rooted (h : m.Marked) (ht : m.thread.torn = false) : m.rooted.Marked := by
  unfold Machine.rooted
  split
  · exact h.opened ht
  · exact h

theorem closed (h : m.Marked) (id : Nat) : (m.closed id).Marked := by
  refine h.of_frames (.closed id m) rfl (fun f hf => ?_) fun htorn => ?_
  · exact .inl ⟨f, Frame.erase_sublist.subset hf, rfl, rfl⟩
  · show Frame.erase id m.thread.frames.frames = []
    rw [h.torn htorn]
    rfl

theorem withPending (h : m.Marked) (id : Nat) (cs : List Cleanup) :
    (m.withPending id cs).Marked := by
  refine h.of_frames (.withPending id cs m) rfl (fun f hf => ?_) fun htorn => ?_
  · rcases Frame.mem_update h.orderly.frames.distinct hf with ⟨hf, _⟩ | ⟨g, hg, _, rfl⟩
    · exact .inl ⟨f, hf, rfl, rfl⟩
    · exact .inl ⟨g, hg, rfl, rfl⟩
  · show Frame.update id _ m.thread.frames.frames = []
    rw [h.torn htorn]
    rfl

theorem starting (h : m.Marked) (c : Cleanup) : (m.starting c).Marked := by
  unfold Machine.starting
  split
  · exact (h.note _).note _
  · exact h.note _

theorem add (h : m.Marked) {c : Cleanup} {s : FrameStack Cleanup}
    (hs : m.thread.frames.add? c = some s) : (m.withFrames s).Marked := by
  have ht := Tidy.add hs
  obtain ⟨f, fs, hf, _, rfl⟩ := FrameStack.add?_eq_some.1 hs
  refine h.of_frames ht rfl (fun f' hf' => .inl ?_) fun htorn => ?_
  · obtain rfl | hf' := List.mem_cons.1 hf'
    · exact ⟨f, hf ▸ List.mem_cons_self, rfl, rfl⟩
    · exact ⟨f', hf ▸ List.mem_cons_of_mem _ hf', rfl, rfl⟩
  · rw [h.torn htorn] at hf
    cases hf

/-! ## Recoveries -/

theorem tokenTaken (h : m.Marked) : m.tokenTaken.Marked := h.of_same (.tokenTaken m) rfl rfl

/-- A recovery marks the innermost frame. -/
theorem recoveryEntered (h : m.Marked) (ht : m.thread.torn = false) : m.recoveryEntered.Marked := by
  have hroot : m.tokenTaken.rooted.Marked := h.tokenTaken.rooted ht
  have hrec : m.tokenTaken.rooted.thread.recovering = m.thread.recovering :=
    Machine.recovering_rooted _
  have hids : m.recoveryEntered.openIds = m.tokenTaken.rooted.openIds := map_id_withMark _
  obtain ⟨top, fs, htop, hid⟩ : ∃ f fs, m.tokenTaken.rooted.thread.frames.frames = f :: fs ∧
      f.id = m.rootId := m.tokenTaken.frames_rooted
  have hle : ∀ id ∈ m.recoveryEntered.openIds, id ≤ m.rootId := by
    intro id hmem
    have hany := hroot.orderly.le_innermostId (hids ▸ hmem)
    rw [Machine.innermostId_rooted] at hany
    exact of_decide_eq_true hany
  have hknown : ∀ r ∈ m.thread.recovering, r.frame < m.tokenTaken.rooted.thread.frames.nextId ∧
      r.token < m.shared.nextToken := fun r hr =>
    ⟨(hroot.known r (hrec ▸ hr)).1, (h.known r hr).2⟩
  have hfresh : m.rootId < m.tokenTaken.rooted.thread.frames.nextId := by
    rw [← hid]
    exact hroot.orderly.frames.fresh top (htop ▸ List.mem_cons_self)
  have htoken : m.shared.nextToken < m.recoveryEntered.shared.nextToken := by
    have := (Tidy.rooted m.tokenTaken).nextToken
    exact Nat.lt_of_lt_of_le (Nat.lt_succ_self _) this
  refine ⟨h.orderly.recoveryEntered, fun f hf => ?_, fun r hr => ?_, ?_, ?_, fun htorn => ?_⟩
  · show f.mark = markFor (⟨m.shared.nextToken, m.rootId⟩ :: m.thread.recovering) f.id
    rcases Frame.mem_update hroot.orderly.frames.distinct hf with ⟨hf, hne⟩ | ⟨g, _, hg, rfl⟩
    · rw [markFor_cons_of_ne (Ne.symm hne), ← hrec]
      exact hroot.mark f hf
    · rw [show (Frame.withMark (some m.shared.nextToken) g).id = m.rootId from hg,
        markFor_cons_self]
      rfl
  · obtain rfl | hr := List.mem_cons.1 hr
    · exact ⟨hfresh, htoken⟩
    · exact ⟨(hknown r hr).1, Nat.lt_trans (hknown r hr).2 htoken⟩
  · exact List.pairwise_cons.2 ⟨fun r hr => (h.known r hr).2, h.newest⟩
  · refine List.pairwise_cons.2 ⟨fun r _ hopen => hle _ hopen, ?_⟩
    have hnested := hroot.nested
    rw [hrec] at hnested
    exact hnested.imp fun hle hopen => hle (hids ▸ hopen)
  · have := (Tidy.recoveryEntered m).torn.symm.trans htorn
    rw [ht] at this
    cases this

/-- The mark that a recovery finds is the one that the recoveries around it give. -/
theorem markFound (h : m.Marked) (ht : m.thread.torn = false) :
    m.tokenTaken.markFound = markFor m.thread.recovering m.rootId := by
  have hroot : m.tokenTaken.rooted.Marked := h.tokenTaken.rooted ht
  obtain ⟨top, fs, htop, hid⟩ : ∃ f fs, m.tokenTaken.rooted.thread.frames.frames = f :: fs ∧
      f.id = m.rootId := m.tokenTaken.frames_rooted
  have hmark := hroot.mark top (htop ▸ List.mem_cons_self)
  rw [show m.tokenTaken.rooted.thread.recovering = m.thread.recovering from
    Machine.recovering_rooted _, hid] at hmark
  unfold Machine.markFound
  show (Frame.find? m.rootId m.tokenTaken.rooted.thread.frames.frames).bind (·.mark) = _
  rw [htop, ← hid, Frame.find?_cons_self, Option.bind_some, hmark, hid]

/-- When a recovery ends, its frame has the mark again that it had before. -/
theorem recovery_end (h : m.Marked) (ht : m.thread.torn = false) (h' : m'.Marked)
    (hr : m'.thread.recovering = m.recoveryEntered.thread.recovering) :
    ((m'.withMark m.rootId m.tokenTaken.markFound).withRecovering m.thread.recovering).Marked := by
  have hids : ((m'.withMark m.rootId m.tokenTaken.markFound).withRecovering
      m.thread.recovering).openIds = m'.openIds := map_id_withMark _
  have hr' : m'.thread.recovering = ⟨m.shared.nextToken, m.rootId⟩ :: m.thread.recovering := hr
  have hmem : ∀ r ∈ m.thread.recovering, r ∈ m'.thread.recovering := fun r hr =>
    hr' ▸ List.mem_cons_of_mem _ hr
  have hnewest := h'.newest
  have hnested := h'.nested
  rw [hr'] at hnewest hnested
  refine ⟨(h'.orderly.withMark _ _).withRecovering _, fun f hf => ?_,
    fun r hr => h'.known r (hmem r hr), (List.pairwise_cons.1 hnewest).2, ?_, fun htorn => ?_⟩
  · show f.mark = markFor m.thread.recovering f.id
    rcases Frame.mem_update h'.orderly.frames.distinct hf with ⟨hf, hne⟩ | ⟨g, _, hg, rfl⟩
    · rw [h'.mark f hf, hr', markFor_cons_of_ne (Ne.symm hne)]
    · show m.tokenTaken.markFound = markFor m.thread.recovering g.id
      rw [h.markFound ht, hg]
  · exact (List.pairwise_cons.1 hnested).2.imp fun hle hopen => hle (hids ▸ hopen)
  · show Frame.update _ _ m'.thread.frames.frames = []
    rw [h'.torn htorn]
    rfl

theorem of_nil (hn : m.thread.number < m.shared.nextThread) (hf : m.thread.frames.frames = [])
    (hr : m.thread.recovering = []) : m.Marked := by
  have ho : m.Orderly := ⟨⟨by rw [hf]; exact .nil, by rw [hf]; nofun⟩, hn⟩
  refine ⟨ho, ?_, ?_, ?_, ?_, fun _ => hf⟩
  · rw [hf]; nofun
  · rw [hr]; nofun
  · rw [hr]; exact .nil
  · rw [hr]; exact .nil

/-- Where the code of a thread starts nothing is marked. -/
theorem of_isRoot {a : Activation} (h : a.IsRoot) :
    a.machine.Marked ∧ a.machine.thread.recovering = [] := by
  cases h with
  | body hm hn =>
    rename_i n b number m
    have hr : m.thread.recovering = [] := by rw [hm]; rfl
    exact ⟨of_nil (by rw [hm]; exact hn) (by rw [hm]; rfl) hr, hr⟩
  | session hm hn =>
    rename_i n status b number m
    have hr : m.thread.recovering = [] := by rw [hm]; rfl
    exact ⟨of_nil (by rw [hm]; exact hn) (by rw [hm]; rfl) hr, hr⟩
  | teardown ht hf hr hn => exact ⟨of_nil hn hf hr, hr⟩

end Marked

namespace Marking

variable {m m₁ m' : Machine}

theorem refl (m : Machine) : Marking m m := ⟨.refl m, rfl, id⟩

theorem trans (h : Marking m m₁) (h' : Marking m₁ m') : Marking m m' :=
  ⟨h.toTidy.trans h'.toTidy, h'.recovering.trans h.recovering, fun hm => h'.marked (h.marked hm)⟩

theorem of_same (ht : Tidy m m') (hf : m'.thread.frames = m.thread.frames)
    (hr : m'.thread.recovering = m.thread.recovering) : Marking m m' :=
  ⟨ht, hr, fun h => h.of_same ht hf hr⟩

theorem note (e : Entry) (m : Machine) : Marking m (m.note e) := of_same (.note e m) rfl rfl

theorem withHeld (held : List (List Guard)) (m : Machine) : Marking m (m.withHeld held) :=
  of_same (.withHeld held m) rfl rfl

theorem opened (m : Machine) (ht : m.thread.torn = false) : Marking m m.opened :=
  ⟨.opened m, rfl, fun h => h.opened ht⟩

theorem starting (c : Cleanup) (m : Machine) : Marking m (m.starting c) := by
  unfold Machine.starting
  split
  · exact (note _ _).trans (note _ _)
  · exact note _ _

theorem primitives : AllPrimitives Marking where
  refl := refl
  trans := trans
  steady h := h.toSteady
  aside h := of_same (.aside h) h.frames h.recovering
  enteredFrame m _ := note _ m
  leftFrame m _ := note _ m
  passed m _ := note _ m
  intercepted m _ := note _ m
  opened := opened
  closed m id _ _ _ _ := ⟨.closed id m, rfl, fun h => h.closed id⟩
  started m id _ c rest _ _ _ :=
    ⟨(Tidy.withPending id rest m).trans (.starting c _), (starting c _).recovering,
      fun h => (h.withPending id rest).starting c⟩
  registered m c s ht _ hs := by
    have hroot : Marking m m.serialTaken.rooted :=
      ⟨(Tidy.serialTaken m).trans (.rooted _), Machine.recovering_rooted _,
        fun h => (h.of_same (.serialTaken m) rfl rfl).rooted ht⟩
    exact (hroot.trans ⟨.add hs, rfl, fun h => h.add hs⟩).trans (note _ _)
  registeredLate m c _ _ :=
    ((of_same (.serialTaken m) rfl rfl).trans (note _ _)).trans (starting c _)
  tokenTaken m := of_same (.tokenTaken m) rfl rfl
  block h := ((withHeld _ _).trans h).trans (withHeld _ _)
  dropped m _ _ _ _ := withHeld _ m
  entered m _ ht := ((opened m ht).trans (note _ _)).trans (withHeld _ _)
  released m _ _ _ _ := withHeld _ m
  recovery ht h := ⟨Tidy.primitives.recovery ht h.toTidy, rfl,
    fun hm => hm.recovery_end ht (h.marked (hm.recoveryEntered ht)) h.recovering⟩
  thread hg := of_same (.ofThread hg) rfl rfl

/-- After a run, frames have the marks that they had before, and new ones have none. -/
theorem mark_eq (hk : Marking m m') (hm : m.Marked) {f : Frame Cleanup}
    (hf : f ∈ m'.thread.frames.frames) :
    f.mark = (Frame.find? f.id m.thread.frames.frames).bind (·.mark) := by
  rw [(hk.marked hm).mark f hf, hk.recovering]
  obtain hopen | hge := hk.novel f.id (List.mem_map_of_mem hf)
  · obtain ⟨g, hg, hid⟩ := List.mem_map.1 hopen
    rw [(Frame.find?_eq_some hm.orderly.frames.distinct).2 ⟨hg, hid⟩, Option.bind_some,
      hm.mark g hg, hid]
  · have hnone : Frame.find? f.id m.thread.frames.frames = none := by
      refine Frame.find?_eq_none.2 fun g hg he => ?_
      have hlt := hm.orderly.frames.fresh g hg
      omega
    rw [hnone, markFor_eq_none]
    · rfl
    · intro s hs he
      have hlt := (hm.known s hs).1
      omega

end Marking

/-! ## The aim of a panic -/

/-- The recovery that a panic is to reach: the newest one whose frame is open. -/
def aim? (m : Machine) : Option Recovery :=
  m.thread.recovering.find? fun r => r.frame ∈ m.openIds

section Aim

variable {m m' : Machine} {r : Recovery}

theorem aim?_eq_some : m.aim? = some r ↔ r.frame ∈ m.openIds ∧
    ∃ newer older, m.thread.recovering = newer ++ r :: older ∧
      ∀ s ∈ newer, s.frame ∉ m.openIds := by
  simp [aim?, List.find?_eq_some_iff_append]

theorem frame_of_aim (h : m.aim? = some r) : r.frame ∈ m.openIds := (aim?_eq_some.1 h).1

theorem mem_of_aim (h : m.aim? = some r) : r ∈ m.thread.recovering := List.mem_of_find?_eq_some h

/-- An open frame with a recovery belongs to the aim or to one further out. -/
theorem Marked.le_aim (hm : m.Marked) (h : m.aim? = some r) {s : Recovery}
    (hs : s ∈ m.thread.recovering) (hopen : s.frame ∈ m.openIds) :
    s = r ∨ s.frame ≤ r.frame ∧ s.token < r.token := by
  obtain ⟨_, newer, older, hrec, hnew⟩ := aim?_eq_some.1 h
  have hnested := hm.nested
  have hnewest := hm.newest
  rw [hrec] at hs hnested hnewest
  rcases List.mem_append.1 hs with hs | hs
  · exact (hnew s hs hopen).elim
  · obtain rfl | hs := List.mem_cons.1 hs
    · exact .inl rfl
    · have hrest := (List.pairwise_append.1 hnested).2.1
      have hrest' := (List.pairwise_append.1 hnewest).2.1
      exact .inr ⟨(List.pairwise_cons.1 hrest).1 s hs hopen, (List.pairwise_cons.1 hrest').1 s hs⟩

theorem Marked.mark_above (hm : m.Marked) (h : m.aim? = some r) {f : Frame Cleanup}
    (hf : f ∈ m.thread.frames.frames) (hlt : r.frame < f.id) : f.mark = none := by
  rw [hm.mark f hf, markFor_eq_none]
  rintro s hs he
  have hopen : s.frame ∈ m.openIds := he ▸ List.mem_map_of_mem hf
  rcases hm.le_aim h hs hopen with rfl | ⟨hle, _⟩ <;> omega

theorem Marked.mark_aim (hm : m.Marked) (h : m.aim? = some r) {f : Frame Cleanup}
    (hf : f ∈ m.thread.frames.frames) (hid : f.id = r.frame) : f.mark = some r.token := by
  obtain ⟨hopen, newer, older, hrec, hnew⟩ := aim?_eq_some.1 h
  rw [hm.mark f hf, markFor, hrec, hid, List.find?_append, List.find?_eq_none.2]
  · simp
  · intro s hs
    simp only [decide_eq_true_eq]
    exact fun he => hnew s hs (he ▸ hopen)

/-- As long as its frame is open the aim stays the same. -/
theorem Marking.aim (hk : Marking m m') (hm : m.Marked) (h : m.aim? = some r)
    (hopen : r.frame ∈ m'.openIds) : m'.aim? = some r := by
  obtain ⟨_, newer, older, hrec, hnew⟩ := aim?_eq_some.1 h
  refine aim?_eq_some.2 ⟨hopen, newer, older, hk.recovering.trans hrec, fun s hs hopen => ?_⟩
  rcases hk.novel _ hopen with hopen | hge
  · exact hnew s hs hopen
  · have := (hm.known s (hrec ▸ List.mem_append_left _ hs)).1
    omega

end Aim

end Machine

end NonlocalExit
