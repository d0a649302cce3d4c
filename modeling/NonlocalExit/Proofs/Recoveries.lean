import NonlocalExit.Proofs.HeldFrames

/-!
# Recoveries that have returned

`recover_leaves`: what holds when a call of `recover` has returned.  If a panic has left the body,
all frames that were opened inside are closed, and the frame that the call marked is the innermost
one.  If the body has returned, it is up to the guards: a frame that was opened inside may still be
open if it was given away there, as in `frame_open_after_leak`.
-/

namespace NonlocalExit

open Effect Machine

section

variable [Declarations]

/-! ## Guards along the calls -/

section

variable {a b : Activation} {l : Label} {K : List (Label × Activation)}

theorem holdsOpened_of_enters (e : Enters a l b) (h : a.machine.HoldsOpened) :
    b.machine.HoldsOpened := by
  obtain ⟨m, hopens, hm⟩ := Yielding.primitives.visits e
  refine hm.holdsOpened ?_
  cases hopens with
  | same => exact h
  | block => exact h
  | recover =>
    have hheld := held_rooted a.machine.tokenTaken
    exact h.of_held (Tidy.recoveryEntered _).nextId fun g hg => hheld ▸ hg

theorem Path.holdsOpened (h : Path a K b) (ha : a.machine.HoldsOpened) :
    b.machine.HoldsOpened := by
  induction h with
  | here => exact ha
  | call _ e ih => exact holdsOpened_of_enters e ih

/-- Wherever a thread comes to, the guards that it holds are of frames that have been opened. -/
theorem Stack.holdsOpened (h : Stack K a) (ht : a.machine.thread.torn = false) :
    a.machine.HoldsOpened := by
  obtain ⟨root, hroot, hpath⟩ := h.path ht
  have hnew : ∀ {m : Machine} {number blocked}, m.thread = .new number blocked →
      m.HoldsOpened := by
    intro m number blocked hm g hg
    rw [hm] at hg
    cases hg
  refine hpath.holdsOpened ?_
  cases hroot with
  | body hm => exact hnew hm
  | session hm => exact hnew hm

end

/-! ## The panic that a recovery stops -/

section

variable {m : Machine} {r s : Recovery} {f : Frame Cleanup} {fs : List (Frame Cleanup)}
  {token : Nat}

theorem Machine.Marked.eq_of_token (hm : m.Marked) (hr : r ∈ m.thread.recovering)
    (hs : s ∈ m.thread.recovering) (he : r.token = s.token) : r = s := by
  have hnewest := hm.newest
  generalize m.thread.recovering = rs at hnewest hr hs
  induction rs with
  | nil => cases hr
  | cons q rs ih =>
    obtain ⟨hq, hrest⟩ := List.pairwise_cons.1 hnewest
    rw [List.mem_cons] at hr hs
    obtain rfl | hr := hr
    · obtain rfl | hs := hs
      · rfl
      · have hlt := hq s hs
        omega
    · obtain rfl | hs := hs
      · have hlt := hq r hr
        omega
      · exact ih hrest hr hs

/-- A mark on the innermost frame is that of the recovery that a panic would reach. -/
theorem Machine.Marked.aim_of_mark (hm : m.Marked) (hf : m.thread.frames.frames = f :: fs)
    (hmark : f.mark = some token) : ∃ r, m.aim? = some r ∧ r.frame = f.id ∧ r.token = token := by
  have hmem : f ∈ m.thread.frames.frames := hf ▸ List.mem_cons_self
  have hopen : f.id ∈ m.openIds := List.mem_map_of_mem hmem
  obtain ⟨s, hfind, -⟩ := Option.map_eq_some_iff.1 ((hm.mark f hmem).symm.trans hmark)
  have hs : s ∈ m.thread.recovering := List.mem_of_find?_eq_some hfind
  have hsframe : s.frame = f.id := of_decide_eq_true (List.find?_some hfind :)
  have hsome : m.aim?.isSome :=
    List.find?_isSome.2 ⟨s, hs, by rw [hsframe]; exact decide_eq_true hopen⟩
  obtain ⟨r, hr⟩ := Option.isSome_iff_exists.1 hsome
  -- The aim is not further out than the frame, and no frame is further in.
  have hle : f.id ≤ r.frame := by
    obtain rfl | ⟨hle, -⟩ := hm.le_aim hr hs (hsframe ▸ hopen)
    · exact Nat.le_of_eq hsframe.symm
    · exact hsframe ▸ hle
  have hge : r.frame ≤ f.id := by
    have hany := hm.orderly.le_innermostId (frame_of_aim hr)
    rw [innermostId_of_cons hf] at hany
    exact of_decide_eq_true hany
  have hframe : r.frame = f.id := Nat.le_antisymm hge hle
  have htoken := (hm.mark_aim hr hmem hframe.symm).symm.trans hmark
  exact ⟨r, hr, hframe, Option.some.inj htoken⟩

end

section

variable {n : Nat} {body : Block} {code : ErrorCode} {m m₁ m' : Machine}

/-- A panic that leaves the body of the recovery that it aims at has closed all frames inside. -/
theorem innermostId_of_panicked (hm : m.Marked) (ht : m.thread.torn = false)
    (h : (Job.run n (.block body)).run m.recoveryEntered =
      ⟨.unwound (.panicking code m.shared.nextToken), m₁⟩) : m₁.innermostId = some m.rootId := by
  have hentered : m.recoveryEntered.Marked := hm.recoveryEntered ht
  have hcall : ⟨m.shared.nextToken, m.rootId⟩ ∈ m.recoveryEntered.thread.recovering :=
    List.mem_cons_self
  obtain ⟨b, horigin⟩ := exists_origin (a := ⟨n, .job (.block body), m.recoveryEntered⟩) h nofun
  obtain ⟨K, mb, hpath, hK, hraises⟩ := horigin.path
  have hmarked := hpath.marked hentered
  have hrecovering := hpath.recovering_subset _ hcall
  have hrun := hraises.run
  cases hraises with
  | @panicking k _ f fs _ mb htorn hf hmark =>
    -- The panic has met the mark of the recovery, which lets nothing stop it on its way.
    obtain ⟨r, haim, hframe, htoken⟩ := hmarked.aim_of_mark hf hmark
    obtain rfl := hmarked.eq_of_token (mem_of_aim haim) hrecovering htoken
    have htop : mb.innermostId = some m.rootId :=
      (innermostId_of_cons hf).trans (congrArg some hframe.symm)
    have hle : ∀ id ∈ mb.openIds, id ≤ m.rootId := by
      intro id hid
      have hany := hmarked.orderly.le_innermostId hid
      rw [show (Activation.mk (k + 1) _ mb).machine.innermostId = _ from htop] at hany
      exact of_decide_eq_true hany
    have hwithin : Activation.Within (m.rootId + 1) m.recoveryEntered.thread.held.length
        ⟨n, .job (.block body), m.recoveryEntered⟩ :=
      ⟨⟨Nat.le_refl _, fun i hi => absurd hi (by simp)⟩, False.elim⟩
    have hadmits := hpath.admits hentered hcall haim fun x hx => by
      have hpasses := hK x hx
      constructor <;> (intro he; rw [he] at hpasses; exact hpasses)
    obtain ⟨m₂, hbody, hsame, -⟩ := unwound_of_path hpath hwithin (hentered.known _ hcall).1
      hentered.orderly (frame_of_aim haim) (Nat.succ_pos k) hadmits hrun htorn hle
    cases h.symm.trans hbody
    unfold Machine.innermostId FrameStack.innermost? at htop ⊢
    rw [hsame.frames]
    exact htop

/-! ## What a recovery leaves -/

theorem innermostId_recoveryEntered (m : Machine) :
    m.recoveryEntered.innermostId = some m.rootId := by
  obtain ⟨f, fs, hf, hid⟩ : ∃ f fs, m.tokenTaken.rooted.thread.frames.frames = f :: fs ∧
      f.id = m.rootId := m.tokenTaken.frames_rooted
  have hframes : m.recoveryEntered.thread.frames.frames =
      Frame.update m.rootId (·.withMark (some m.shared.nextToken)) (f :: fs) := hf ▸ rfl
  rw [Frame.update, if_pos hid] at hframes
  exact (innermostId_of_cons hframes).trans (congrArg some hid)

/-- A body that has returned leaves open what was open before and what it has given away. -/
theorem open_of_returned (ho : m.Orderly) (hheld : m.HoldsOpened)
    (h : (Job.run n (.block body)).run m = ⟨.returned (), m'⟩) :
    ∀ id ∈ m'.openIds, id ∈ m.openIds ∨ Activation.Loses ⟨n, .job (.block body), m⟩ id := by
  intro id hid
  have htidy : Tidy m m' := Tidy.primitives.obeys _ _ _ _ _ (leaves_of_returned h)
  refine (htidy.novel id hid).imp_right fun hnew => ?_
  have hguarded := Activation.guarded (a := ⟨n, .job (.block body), m⟩)
    (S := fun i => i ∈ m.openIds ∨ Activation.Loses ⟨n, .job (.block body), m⟩ i) ho
    (fun _ => .inr) (fun i hi => .inl (.inl hi)) _ _ (leaves_of_returned h)
  have hless : ∀ {i}, i ∈ m.openIds → i < m.thread.frames.nextId := by
    intro i hi
    obtain ⟨f, hf, rfl⟩ := List.mem_map.1 hi
    exact ho.frames.fresh f hf
  obtain (hold | hlost) | ⟨g, hg, rfl⟩ := hguarded id hid
  · have hlt := hless hold
    omega
  · exact hlost
  · -- A guard that is held now was held before, so its frame is not a new one.
    have hmem := mem_flatten_of_getD (holdsLess_of_block (leaves_of_returned h)) hg
    have hlt := hheld g hmem
    omega

/-- What holds when a call of `recover` has returned that was made on a machine: with the error code
of the panic that it has stopped, or with none.  `lost` says which frames were given away inside. -/
structure Machine.RecoverLeft (lost : Nat → Prop) (r : Option ErrorCode) (m m' : Machine) :
    Prop where
  /-- What is open was open where the body was entered, or was given away there, and then no panic
  was stopped. -/
  novel : ∀ id ∈ m'.openIds, id ∈ m.recoveryEntered.openIds ∨ r = none ∧ lost id
  /-- Each cleanup that was registered in a frame that is closed was started once. -/
  once : ∀ id ∉ m'.openIds, ∀ s ∈ registeredIn id (stepsIn (m.deeds m')),
    (startedIn (stepsIn (m.deeds m'))).count s = 1
  /-- A panic that was stopped has not come past the frame of the call. -/
  recovered : r ≠ none → m.rootId ∈ m'.openIds
  /-- The frame of the call is the innermost one again, unless it was closed, or frames that were
  opened in the body are still open. -/
  innermost : m.rootId ∈ m'.openIds → (∀ id ∈ m'.openIds, id ∈ m.recoveryEntered.openIds) →
    m'.innermostId = some m.rootId
  /-- All frames have the marks that they had before. -/
  marks : ∀ f ∈ m'.thread.frames.frames,
    f.mark = (Frame.find? f.id m.thread.frames.frames).bind (·.mark)

/-- What a call of `recover` leaves when it returns. -/
theorem recover_leaves {K : List (Label × Activation)} {value : String} {r : Option ErrorCode}
    (hstack : Stack K ⟨n, .stmt (.recover value body), m⟩)
    (h : (Effect.recover (Job.run n (.block body))).run m = ⟨.returned r, m'⟩) :
    m.RecoverLeft (Activation.Loses ⟨n, .job (.block body), m.recoveryEntered⟩) r m' := by
  obtain ⟨ht, m₁, hbody, hthread⟩ := returned_of_recover h
  have hm : m.Marked := hstack.marked ht
  obtain ⟨base, hacc : m.Accounted base _⟩ := hstack.accounted ht
  have hkeep : Marking m m' := Marking.primitives.obeys_recover
    (Marking.primitives.obeys n (.block body)) _ _ _ (leaves_of_returned h)
  have haccount : KeepsAccount m m' := KeepsAccount.primitives.obeys_recover
    (KeepsAccount.primitives.obeys n (.block body)) _ _ _ (leaves_of_returned h)
  have hentered := Enters.recover n value body ht
  have ho : m.recoveryEntered.Orderly := hm.orderly.recoveryEntered
  have hbase : m.recoveryEntered.innermostId = some m.rootId := innermostId_recoveryEntered m
  have hids : m'.openIds = m₁.openIds := by
    unfold Machine.openIds
    rw [hthread]
    exact map_id_withMark _
  have hnovel : ∀ id ∈ m'.openIds, id ∈ m.recoveryEntered.openIds ∨
      r = none ∧ Activation.Loses ⟨n, .job (.block body), m.recoveryEntered⟩ id := by
    intro id hid
    rw [hids] at hid
    obtain ⟨hreturned, rfl⟩ | ⟨code, hpanicked, rfl⟩ := hbody
    · have hheld := holdsOpened_of_enters hentered (hstack.holdsOpened ht)
      exact (open_of_returned ho hheld hreturned id hid).imp_right fun hlost => ⟨rfl, hlost⟩
    · have htidy : Tidy m.recoveryEntered m₁ :=
        Tidy.primitives.obeys _ _ _ _ _ (leaves_of_unwound hpanicked)
      refine (htidy.novel id hid).imp_right fun hnew => ?_
      -- The innermost frame is that of the call, so no new one is open.
      have hany := (htidy.orderly ho).le_innermostId hid
      rw [innermostId_of_panicked hm ht hpanicked] at hany
      obtain ⟨f, hf, hfid⟩ := List.mem_map.1 (mem_openIds_of_innermostId hbase)
      have hfresh := ho.frames.fresh f hf
      have hle : id ≤ m.rootId := of_decide_eq_true hany
      omega
  refine ⟨hnovel, fun id hid => ?_, fun hr => ?_, fun hopen hsub => ?_, fun f hf => ?_⟩
  · exact count_started_of_closed hacc (haccount.2 _ _ hacc) haccount.1 ht hid
  · obtain ⟨-, rfl⟩ | ⟨code, hpanicked, rfl⟩ := hbody
    · exact (hr rfl).elim
    · rw [hids]
      exact mem_openIds_of_innermostId (innermostId_of_panicked hm ht hpanicked)
  · have ho' := hkeep.orderly hm.orderly
    have hroot := rootId_of_innermostId ho ho' hbase hopen hsub
    obtain ⟨i, hi, -⟩ := (Option.any_eq_true _ _).1 (ho'.le_innermostId hopen)
    rw [← hroot, rootId_eq hi]
    exact hi
  · exact hkeep.mark_eq hm hf

end

end

/-- A scope with a cleanup, that is left by a panic. -/
def panickingInScope : Block := [.scope [.defer [.emit "cleanup"], .panic (some .enoent)]]

/-- A guard of a frame with a cleanup, that is leaked. -/
def leakingGuard : Block := [.enter "guard", .defer [.emit "cleanup"], .leak "guard"]

theorem stack_recoverInScope (body : Block) :
    ∃ K, Stack K ⟨8, .stmt (.recover "value" body), inOuterScope⟩ := by
  have hstart : Activation.IsStart ⟨10, .job (.block [.scope [.recover "value" body]]), .initial⟩ :=
    .body rfl (by decide : 0 < _)
  exact ⟨_, ((((Stack.start hstart).call (.block _ _ _)).call (.first _ _ _ _)).call
    (.scope _ _ rfl)).call (.block _ _ _) |>.call (.first _ _ _ _)⟩

/-- The frame of the scope that the panic has come past is closed, its cleanup was started, and the
outer one is the innermost frame again. -/
theorem recover_leaves_panickingInScope :
    ∃ K m', Stack K ⟨8, .stmt (.recover "value" panickingInScope), inOuterScope⟩ ∧
      (Effect.recover (Job.run 8 (.block panickingInScope))).run inOuterScope =
        ⟨.returned (some .enoent), m'⟩ ∧
      registeredIn 1 (stepsIn (inOuterScope.deeds m')) = [0] ∧
      (startedIn (stepsIn (inOuterScope.deeds m'))).count 0 = 1 ∧ m'.innermostId = some 0 := by
  obtain ⟨K, hstack⟩ := stack_recoverInScope panickingInScope
  refine ⟨K, _, hstack, rfl, rfl, ?_⟩
  have hleft := recover_leaves hstack rfl
  exact ⟨hleft.once 1 (by decide) 0 (by decide),
    hleft.innermost (hleft.recovered nofun) (by decide)⟩

/-- A body that has leaked its guard leaves the frame open when the recovery returns: its cleanup
was not started, and what follows is inside the frame. -/
theorem frame_open_after_leak :
    ∃ K m', Stack K ⟨8, .stmt (.recover "value" leakingGuard), inOuterScope⟩ ∧
      (Effect.recover (Job.run 8 (.block leakingGuard))).run inOuterScope =
        ⟨.returned none, m'⟩ ∧
      inOuterScope.recoveryEntered.openIds = [0] ∧ m'.openIds = [1, 0] ∧
      registeredIn 1 (stepsIn (inOuterScope.deeds m')) = [0] ∧
      startedIn (stepsIn (inOuterScope.deeds m')) = [] ∧
      inOuterScope.innermostId = some 0 ∧ m'.innermostId = some 1 := by
  obtain ⟨K, hstack⟩ := stack_recoverInScope leakingGuard
  exact ⟨K, _, hstack, rfl, rfl, rfl, rfl, rfl, rfl, rfl⟩

end NonlocalExit
