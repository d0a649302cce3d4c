import NonlocalExit.Proofs.Accounting
import NonlocalExit.Proofs.ClosingOrder
import NonlocalExit.Proofs.Outward
import NonlocalExit.Proofs.Passing

/-!
# A panic reaches the newest recovery whose frame is open

`panic_reaches_newest_recovery`: the panic closes the frames above that of its aim, each time the
innermost one, and the call of `recover` that it aims at returns the error code.  A frame that a
cleanup opens meanwhile and leaves open is closed only after the frame whose cleanup it was:
`outer_closed_first_inRecoveredScope`.
-/

namespace NonlocalExit

open Effect Machine

theorem range_subset {n n' : Nat} (h : n ≤ n') : ∀ id ∈ List.range n, id ∈ List.range n' :=
  fun _ hid => List.mem_range.2 (Nat.lt_of_lt_of_le (List.mem_range.1 hid) h)

section

variable [Declarations]

/-- Whether a cleanup returns, and drops no guard that was there before it. -/
structure Activation.ReturnsSparing (a : Activation) (m : Machine) : Prop where
  returned : a.run = ⟨.returned (), m⟩
  spares : SparesGuards (List.range a.machine.thread.frames.nextId) (a.machine.deeds m)

theorem SparesGuards.mono {S S' : List Nat} {es : List Entry} (h : SparesGuards S es)
    (hs : ∀ id ∈ S', id ∈ S) : SparesGuards S' es := fun id hid => h id (hs id hid)

theorem sparesGuards_nil (S : List Nat) : SparesGuards S [] := fun _ _ => List.not_mem_nil

namespace Machine

section

variable {m m' : Machine} {r : Recovery}

/-- An open frame is the innermost of those up to it. -/
theorem head_idsAmong {target : Nat} (ho : m.Orderly) (h : target ∈ m.openIds) :
    (m.idsAmong (List.range (target + 1))).head? = some target := by
  have hd := ho.frames.descending
  unfold idsAmong
  unfold openIds at h
  generalize m.thread.frames.frames = fs at hd h
  induction fs with
  | nil => cases h
  | cons f fs ih =>
    obtain ⟨hlt, hd⟩ := List.pairwise_cons.1 hd
    rw [List.map_cons] at h ⊢
    obtain rfl | h := List.mem_cons.1 h
    · rw [List.filter_cons_of_pos (by simp)]
      rfl
    · obtain ⟨g, hg, rfl⟩ := List.mem_map.1 h
      have := hlt g hg
      rw [List.filter_cons_of_neg (by simp; omega)]
      exact ih hd h

/-- The frame of the aim, and its mark. -/
theorem Marked.find?_aim (hm : m.Marked) (h : m.aim? = some r) :
    ∃ f, Frame.find? r.frame m.thread.frames.frames = some f ∧ f.mark = some r.token := by
  obtain ⟨f, hf, hid⟩ := List.mem_map.1 (frame_of_aim h)
  exact ⟨f, (Frame.find?_eq_some hm.orderly.frames.distinct).2 ⟨hf, hid⟩, hm.mark_aim h hf hid⟩

theorem Marked.frame_lt_nextId (hm : m.Marked) (h : m.aim? = some r) :
    r.frame < m.thread.frames.nextId := (hm.known r (mem_of_aim h)).1

theorem Marked.torn_of_aim (hm : m.Marked) (h : m.aim? = some r) : m.thread.torn = false := by
  have hopen := frame_of_aim h
  unfold openIds at hopen
  cases ht : m.thread.torn with
  | false => rfl
  | true => rw [hm.torn ht] at hopen; cases hopen

/-- As long as guards are spared, runs that are not asked to close them keep the frame of the aim
and those below. -/
theorem keptAmong_of_aim {n : Nat} {j : Job} {o : Option Transfer} (hm : m.Marked)
    (h : m.aim? = some r) (hj : j.Spares (List.range (r.frame + 1)) m)
    (hl : ((Job.run n j).run m).Leaves o m')
    (hs : SparesGuards (List.range (r.frame + 1)) (m.deeds m')) :
    m.KeptAmong (List.range (r.frame + 1)) m' := by
  obtain ⟨f, hf, hmark⟩ := hm.find?_aim h
  refine ((keeps_run _ n j m o m' hj hl).kept ⟨fun id hid => ?_, hm.orderly, hs, .inl ?_⟩).1
  · have := hm.frame_lt_nextId h
    have := List.mem_range.1 hid
    omega
  · exact ⟨r.frame, f, head_idsAmong hm.orderly (frame_of_aim h), hf, by rw [hmark]; rfl⟩

theorem KeptAmong.openIds {S : List Nat} (h : m.KeptAmong S m') {id : Nat} (hid : id ∈ S)
    (hopen : id ∈ m.openIds) : id ∈ m'.openIds := by
  have hmem : id ∈ m'.idsAmong S := by
    rw [h.ids]
    exact List.mem_filter.2 ⟨hopen, by simpa using hid⟩
  exact (List.mem_filter.1 hmem).1

/-- The aim stays the aim over such a run. -/
theorem aim_of_run {n : Nat} {j : Job} {o : Option Transfer} (hm : m.Marked)
    (h : m.aim? = some r) (hj : j.Spares (List.range (r.frame + 1)) m)
    (hl : ((Job.run n j).run m).Leaves o m')
    (hs : SparesGuards (List.range (r.frame + 1)) (m.deeds m')) :
    m'.Marked ∧ m'.aim? = some r := by
  have hk := Marking.primitives.obeys n j m o m' hl
  refine ⟨hk.marked hm, hk.aim hm h ?_⟩
  exact (keptAmong_of_aim hm h hj hl hs).openIds List.self_mem_range_succ (frame_of_aim h)

end

end Machine

theorem sparesGuards_starting (S : List Nat) (c : Cleanup) (m : Machine) :
    SparesGuards S (m.deeds (m.starting c)) := by
  obtain ⟨es, hes, hhandler⟩ := deeds_starting m c
  rw [hes]
  intro i _ hi
  rcases List.mem_append.1 hi with hi | hi
  · obtain ⟨a, he⟩ := hhandler _ hi
    cases he
  · cases List.mem_singleton.1 hi

/-! ## The walk -/

section Walk

variable {r : Recovery} {bound : Nat}

/-- What happens when a frame above the aim is closed. -/
theorem close_above {n id : Nat} {m : Machine} (hm : m.Marked) (ha : m.aim? = some r)
    (hb : bound ≤ m.thread.frames.nextId) (hr : r.frame < bound)
    (hd : ∀ d, StartsCleanup ⟨n, .job (.close id), m⟩ d → ∃ m', d.ReturnsSparing m') :
    (∃ m', (Job.run n (.close id)).run m = ⟨.halted .outOfFuel, m'⟩) ∨
      ∃ m', (Job.run n (.close id)).run m = ⟨.returned (), m'⟩ ∧
        SparesGuards (List.range bound) (m.deeds m') := by
  induction n generalizing m with
  | zero => exact .inl ⟨m, rfl⟩
  | succ n ih =>
    have ht := hm.torn_of_aim ha
    cases hf : Frame.find? id m.thread.frames.frames with
    | none =>
      refine .inr ⟨m, closeStep_absent ht hf, ?_⟩
      rw [deeds_of_journal_eq rfl]
      exact sparesGuards_nil _
    | some f =>
      cases hp : f.pending with
      | nil =>
        refine .inr ⟨_, closeStep_empty ht hf hp, ?_⟩
        rw [deeds_closed]
        simp [SparesGuards]
      | cons c cs =>
        have hstep : (Job.run (n + 1) (.close id)).run m = _ := closeStep_pending ht hf hp
        obtain ⟨m₁, hc⟩ := hd _ (.here (.cleanup n ht hf hp))
        have hrun : (Job.run n (.block c.body)).run ((m.withPending id cs).starting c) =
            ⟨.returned (), m₁⟩ := hc.returned
        have hstart : (startCleanup (Job.run n) c).run (m.withPending id cs) = ⟨.returned (), m₁⟩ :=
          (run_startCleanup _ _ _).trans hrun
        have hpop : Marking m ((m.withPending id cs).starting c) :=
          Marking.primitives.started m id f c cs ht hf hp
        have hblock := Marking.primitives.obeys n (.block c.body) _ _ _ (leaves_of_returned hrun)
        have ha' : ((m.withPending id cs).starting c).aim? = some r := by
          refine hpop.aim hm ha ?_
          have hids : ((m.withPending id cs).starting c).openIds = m.openIds := by
            unfold openIds starting
            split <;> exact map_id_withPending cs
          exact hids ▸ frame_of_aim ha
        have hspare := hc.spares.mono (range_subset (Nat.le_trans hb hpop.nextId))
        obtain ⟨hm₁, ha₁⟩ := aim_of_run (hpop.marked hm) ha' (j := .block c.body) trivial
          (leaves_of_returned hrun) (hspare.mono (range_subset hr))
        have hnext := Enters.closeNext ht hf hp hstart
        have hspare₁ : SparesGuards (List.range bound) (m.deeds m₁) := by
          rw [deeds_trans hpop.toGrows.adds hblock.toGrows.adds]
          exact sparesGuards_append.2 ⟨hspare, sparesGuards_starting _ c (m.withPending id cs)⟩
        have hgrow := hpop.trans hblock
        rcases ih hm₁ ha₁ (Nat.le_trans hb hgrow.nextId)
            (fun d h => hd d (.later hnext trivial h)) with ⟨m', hout⟩ | ⟨m', hret, hs⟩
        · exact .inl ⟨m', hstep.trans ((run_bind_returned hstart).trans hout)⟩
        · refine .inr ⟨m', hstep.trans ((run_bind_returned hstart).trans hret), ?_⟩
          have hrest := Marking.primitives.obeys n (.close id) _ _ _ (leaves_of_returned hret)
          rw [deeds_trans hgrow.toGrows.adds hrest.toGrows.adds]
          exact sparesGuards_append.2 ⟨hs, hspare₁⟩

/-- The walk ends at the frame of the aim. -/
theorem walk_to_aim {n : Nat} {code : ErrorCode} {m : Machine} (hm : m.Marked)
    (ha : m.aim? = some r) (hb : bound ≤ m.thread.frames.nextId) (hr : r.frame < bound)
    (hd : ∀ d, StartsCleanup ⟨n, .job (.walk code), m⟩ d → ∃ m', d.ReturnsSparing m') :
    (∃ m', (Job.run n (.walk code)).run m = ⟨.halted .outOfFuel, m'⟩) ∨
      ∃ m', (Job.run n (.walk code)).run m = ⟨.unwound (.panicking code r.token), m'⟩ ∧
        SparesGuards (List.range bound) (m.deeds m') ∧ m'.innermostId = some r.frame := by
  induction n generalizing m with
  | zero => exact .inl ⟨m, rfl⟩
  | succ n ih =>
    have ht := hm.torn_of_aim ha
    obtain ⟨f, fs, hf⟩ : ∃ f fs, m.thread.frames.frames = f :: fs := by
      have hopen := frame_of_aim ha
      unfold openIds at hopen
      cases hf : m.thread.frames.frames with
      | nil => rw [hf] at hopen; cases hopen
      | cons f fs => exact ⟨f, fs, rfl⟩
    have htop : m.innermostId = some f.id := innermostId_of_cons hf
    have hmem : f ∈ m.thread.frames.frames := hf ▸ List.mem_cons_self
    have hle : r.frame ≤ f.id := by
      have := hm.orderly.le_innermostId (frame_of_aim ha)
      rw [htop] at this
      exact of_decide_eq_true this
    by_cases hid : f.id = r.frame
    · refine .inr ⟨m, walkStep_marked ht code hf (hm.mark_aim ha hmem hid), ?_, hid ▸ htop⟩
      rw [deeds_of_journal_eq rfl]
      exact sparesGuards_nil _
    · have hlt : r.frame < f.id := by omega
      have hmark := hm.mark_above ha hmem hlt
      have hstep : (Job.run (n + 1) (.walk code)).run m = _ := walkStep_passed ht code hf hmark
      let m₀ := m.note (.step (.passed f.id))
      have hk₀ : Marking m m₀ := .note _ m
      have ha₀ : m₀.aim? = some r := hk₀.aim hm ha (frame_of_aim ha)
      have hpass := Enters.passed n code ht hf hmark
      rcases close_above (hk₀.marked hm) ha₀ hb hr fun d h => hd d (.later hpass trivial h) with
        ⟨m', hout⟩ | ⟨m₁, hret, hs⟩
      · exact .inl ⟨m', hstep.trans (run_bind_halted hout)⟩
      · have hspares : (Job.close f.id).Spares (List.range (r.frame + 1)) m₀ := by
          intro hmem
          have := List.mem_range.1 hmem
          omega
        obtain ⟨hm₁, ha₁⟩ := aim_of_run (hk₀.marked hm) ha₀ hspares (leaves_of_returned hret)
          (hs.mono (range_subset hr))
        have hclose := Marking.primitives.obeys n (.close f.id) _ _ _ (leaves_of_returned hret)
        have hnext := @Enters.walkNext _ n code _ _ _ _ ht hf hmark hret
        rcases ih hm₁ ha₁ (Nat.le_trans hb (hk₀.trans hclose).nextId)
            (fun d h => hd d (.later hnext trivial h)) with ⟨m', hout⟩ | ⟨m', hret', hs', htop'⟩
        · exact .inl ⟨m', hstep.trans ((run_bind_returned hret).trans hout)⟩
        · refine .inr ⟨m', hstep.trans ((run_bind_returned hret).trans hret'), ?_, htop'⟩
          have hwalk := Marking.primitives.obeys n (.walk code) _ _ _ (leaves_of_unwound hret')
          rw [deeds_trans (hk₀.trans hclose).toGrows.adds hwalk.toGrows.adds,
            deeds_trans hk₀.toGrows.adds hclose.toGrows.adds]
          refine sparesGuards_append.2 ⟨hs', sparesGuards_append.2 ⟨hs, ?_⟩⟩
          rw [deeds_note]
          simp [SparesGuards]

end Walk

/-! ## The cleanups of the frames that are closed -/

theorem accounted_of_enters {a b : Activation} {l : Label} {base : List JournalLine}
    {rest : Nat → List Nat} (h : Enters a l b) (ha : a.machine.Accounted base rest) :
    b.machine.Accounted base rest := by
  obtain ⟨m, ho, hm⟩ := KeepsAccount.primitives.visits h
  refine hm.2 base rest ?_
  cases ho with
  | same => exact ha
  | block => exact ha.withHeld _
  | recover => exact ((ha.tokenTaken.rooted).withMark _ _).withRecovering _

theorem Path.accounted {a b : Activation} {K : List (Label × Activation)}
    {base : List JournalLine} {rest : Nat → List Nat} (h : Path a K b)
    (ha : a.machine.Accounted base rest) : b.machine.Accounted base rest := by
  induction h with
  | here => exact ha
  | call _ e ih => exact accounted_of_enters e ih

/-- Where the body of a thread starts no cleanup is registered. -/
theorem Activation.IsRoot.accounted {a : Activation} (h : a.IsRoot)
    (ht : a.machine.thread.torn = false) :
    a.machine.Accounted a.machine.shared.journal fun _ => [] := by
  have hnew : ∀ {m : Machine} {n blocked}, m.thread = .new n blocked → m.Orderly →
      m.Accounted m.shared.journal fun _ => [] := by
    intro m n blocked hm ho
    refine ⟨ho, [], rfl, (Balanced.empty _ _).congr fun id => ?_⟩
    rw [waiting_of_live _ (by rw [hm]; rfl), hm]
    rfl
  have ho := (Marked.of_isRoot h).1.orderly
  cases h with
  | body hm => exact hnew hm ho
  | session hm => exact hnew hm ho
  | teardown ht' =>
    rw [ht] at ht'
    cases ht'

/-- The account after a run is that before it with what the thread has noted meanwhile. -/
theorem balanced_deeds {base : List JournalLine} {rest : Nat → List Nat} {m m' : Machine}
    (h : m.Accounted base rest) (h' : m'.Accounted base rest) (hs : Steady m m') :
    ∃ L, Balanced (m.waiting rest) m.shared.nextSerial m.thread.frames.nextId L ∧
      Balanced (m'.waiting rest) m'.shared.nextSerial m'.thread.frames.nextId
        (stepsIn (m.deeds m') ++ L) := by
  obtain ⟨lines, hj, hbal⟩ := h.account
  obtain ⟨lines', hj', hbal'⟩ := h'.account
  obtain ⟨new, hnew, _⟩ := hs.journal
  have hlines : lines' = new ++ lines := by
    rw [hj, ← List.append_assoc] at hnew
    exact List.append_cancel_right (hj'.symm.trans hnew)
  refine ⟨_, hbal, ?_⟩
  rwa [deeds_of_journal new hnew, stepsIn_entriesOf, ← stepsOf_append, ← hlines, ← hs.number]

/-- Nothing waits in a frame that is not open. -/
theorem waiting_of_closed (rest : Nat → List Nat) {m : Machine} (ht : m.thread.torn = false)
    {id : Nat} (hid : id ∉ m.openIds) : m.waiting rest id = [] := by
  rw [waiting_of_live rest ht, Frame.waiting, find?_of_closed hid]
  rfl

/-- What was pending in a frame has been started when the frame is closed. -/
theorem started_of_closed {base : List JournalLine} {rest : Nat → List Nat} {m m' : Machine}
    (h : m.Accounted base rest) (h' : m'.Accounted base rest) (hs : Steady m m')
    (ht : m.thread.torn = false) {f : Frame Cleanup} (hf : f ∈ m.thread.frames.frames)
    (hclosed : f.id ∉ m'.openIds) : ∀ c ∈ f.pending, .step (.started c.serial) ∈ m.deeds m' := by
  intro c hc
  obtain ⟨L, hbal, hbal'⟩ := balanced_deeds h h' hs
  have hwait : c.serial ∈ pendingIn f.id L := by
    rw [hbal.pending, waiting_of_live _ ht, Frame.waiting_of_find?
      (Frame.find?_of_mem h.orderly.frames.distinct hf)]
    exact List.mem_map_of_mem hc
  obtain ⟨hreg, hnot⟩ := mem_pendingIn.1 hwait
  have hstarted := hbal'.mem_startedIn_of_empty (waiting_of_closed rest (hs.torn.trans ht) hclosed)
    (mem_registeredIn.2 (List.mem_append_right _ hreg))
  rw [startedIn_append, List.mem_append] at hstarted
  exact mem_stepsIn.1 (mem_startedIn.1 (hstarted.resolve_right hnot))

/-- What was pending in a frame is started once on the way to where the frame is closed. -/
theorem count_started_of_pending {base : List JournalLine} {rest : Nat → List Nat} {m m' : Machine}
    (h : m.Accounted base rest) (h' : m'.Accounted base rest) (hs : Steady m m')
    (ht : m.thread.torn = false) {f : Frame Cleanup} (hf : f ∈ m.thread.frames.frames)
    (hclosed : f.id ∉ m'.openIds) :
    ∀ c ∈ f.pending, (startedIn (stepsIn (m.deeds m'))).count c.serial = 1 := by
  intro c hc
  have hstarted := started_of_closed h h' hs ht hf hclosed c hc
  obtain ⟨L, -, hbal⟩ := balanced_deeds h h' hs
  have honce := hbal.once
  rw [startedIn_append] at honce
  rw [(List.nodup_append.1 honce).1.count, if_pos (mem_startedIn.2 (mem_stepsIn.2 hstarted))]

/-- What is registered in a frame on the way to where the frame is closed is started once on this
way. -/
theorem count_started_of_closed {base : List JournalLine} {rest : Nat → List Nat} {m m' : Machine}
    (h : m.Accounted base rest) (h' : m'.Accounted base rest) (hs : Steady m m')
    (ht : m.thread.torn = false) {id : Nat} (hclosed : id ∉ m'.openIds) :
    ∀ s ∈ registeredIn id (stepsIn (m.deeds m')),
      (startedIn (stepsIn (m.deeds m'))).count s = 1 := by
  intro s hreg
  obtain ⟨L, hbal, hbal'⟩ := balanced_deeds h h' hs
  have hstarted : s ∈ startedIn (stepsIn (m.deeds m') ++ L) := by
    refine hbal'.mem_startedIn_of_empty (waiting_of_closed rest (hs.torn.trans ht) hclosed) ?_
    rw [registeredIn_append]
    exact List.mem_append_left _ hreg
  -- It was not known before, so it was not started before.
  have hnot : s ∉ startedIn L := by
    intro hmem
    have hserial : s ∈ serialsIn (stepsIn (m.deeds m')) :=
      mem_serialsIn.2 ⟨_, mem_registeredIn.1 hreg⟩
    have hd := hbal'.distinct
    rw [serialsIn_append] at hd
    exact Nat.lt_irrefl _ ((List.pairwise_append.1 hd).2.2 s hserial s (hbal.known hmem))
  have honce := hbal'.once
  rw [startedIn_append] at hstarted honce
  rw [(List.nodup_append.1 honce).1.count,
    if_pos ((List.mem_append.1 hstarted).resolve_right hnot)]

/-! ## Delivery -/

namespace Machine

/-- The numbers of the open frames above one, innermost first. -/
def idsAbove (id : Nat) (m : Machine) : List Nat := m.openIds.filter (id < ·)

/-- What the walk of a panic does to the frames: no frame above the aim is open any more; all that
waited in such a frame, and all that was registered in one on the way, was started once; those that
were open at the panic were closed innermost first; and the others are as they were, with what was
registered in them. -/
structure WalkedTo (r : Recovery) (m m' : Machine) : Prop where
  openIds : m'.openIds = m.openIds.filter (· ≤ r.frame)
  closed : (closedAmong (m.idsAbove r.frame) (m.deeds m')).reverse = m.idsAbove r.frame
  pending : ∀ f ∈ m.thread.frames.frames, r.frame < f.id → ∀ c ∈ f.pending,
    (startedIn (stepsIn (m.deeds m'))).count c.serial = 1
  registered : ∀ id, r.frame < id → ∀ s ∈ registeredIn id (stepsIn (m.deeds m')),
    (startedIn (stepsIn (m.deeds m'))).count s = 1
  kept : ∀ f ∈ m.thread.frames.frames, f.id ≤ r.frame → ∃ added,
    Frame.find? f.id m'.thread.frames.frames = some { f with pending := added ++ f.pending } ∧
      added.map (·.serial) = registeredIn f.id (stepsIn (m.deeds m'))

theorem idsAmong_filter {p : Nat → Bool} (m : Machine) :
    m.idsAmong (m.openIds.filter p) = m.openIds.filter p := by
  refine List.filter_congr fun id hid => ?_
  simp only [List.mem_filter, show id ∈ m.openIds from hid, true_and]
  cases p id <;> rfl

theorem walkedTo_of_run {r : Recovery} {n : Nat} {code : ErrorCode} {o : Option Transfer}
    {base : List JournalLine} {rest : Nat → List Nat} {m m' : Machine} (hm : m.Marked)
    (ha : m.aim? = some r) (hacc : m.Accounted base rest)
    (h : ((Job.run n (.walk code)).run (m.note (.log (.panicking code)))).Leaves o m')
    (hs : SparesGuards (List.range m.thread.frames.nextId)
      ((m.note (.log (.panicking code))).deeds m'))
    (htop : m'.innermostId = some r.frame) : m.WalkedTo r m' := by
  have hrun : Marking (m.note (.log (.panicking code))) m' :=
    Marking.primitives.obeys n (.walk code) _ _ _ h
  have hgrow : Marking m m' := (Marking.note _ m).trans hrun
  have hd : m.deeds m' =
      (m.note (.log (.panicking code))).deeds m' ++ [.log (.panicking code)] := by
    rw [deeds_trans (.note _ m) hrun.toGrows.adds, deeds_note]
  have hlt := hm.frame_lt_nextId ha
  have hkept := keptAmong_of_aim (hm.note _) (show (m.note _).aim? = some r from ha)
    (j := .walk code) trivial h (hs.mono (range_subset hlt))
  have hle : ∀ id ∈ m'.openIds, id ≤ r.frame := by
    intro id hid
    have := (hgrow.orderly hm.orderly).le_innermostId hid
    rw [htop] at this
    exact of_decide_eq_true this
  have hids : m'.openIds = m.openIds.filter (· ≤ r.frame) := by
    have hall : m'.idsAmong (List.range (r.frame + 1)) = m'.openIds :=
      List.filter_eq_self.2 fun id hid => by simpa using Nat.lt_succ_of_le (hle id hid)
    rw [← hall, hkept.ids]
    refine List.filter_congr fun id _ => ?_
    simp only [List.mem_range, Nat.lt_succ_iff]
  have hgone : ∀ id, r.frame < id → id ∉ m'.openIds := fun id hid hopen => by
    have := hle id hopen
    omega
  have ht := hm.torn_of_aim ha
  have hacc' : m'.Accounted base rest :=
    (KeepsAccount.primitives.obeys n (.walk code) _ _ _ h).2 _ _
      (hacc.note fun x hx => by cases hx)
  refine ⟨hids, ?_,
    fun f hf hid => count_started_of_pending hacc hacc' hgrow.toSteady ht hf (hgone f.id hid),
    fun id hid => count_started_of_closed hacc hacc' hgrow.toSteady ht (hgone id hid),
    fun f hf hid => ?_⟩
  · have hfresh : ∀ id ∈ m.idsAbove r.frame, id < m.thread.frames.nextId := by
      intro id hid
      obtain ⟨f, hf, rfl⟩ := List.mem_map.1 (List.mem_filter.1 hid).1
      exact hm.orderly.frames.fresh f hf
    have hpeel := (peels_run (m.idsAbove r.frame) n (.walk code) _ o m' trivial h).peeled hfresh
      (hm.orderly.note _) (hs.mono fun id hid => List.mem_range.2 (hfresh id hid))
    have hnone : m'.idsAmong (m.idsAbove r.frame) = [] := by
      refine List.filter_eq_nil_iff.2 fun id hid hmem => ?_
      have hmem := (List.mem_filter.1 (of_decide_eq_true hmem)).2
      exact hgone id (of_decide_eq_true hmem) hid
    have hall : (m.note (.log (.panicking code))).idsAmong (m.idsAbove r.frame) =
        m.idsAbove r.frame := m.idsAmong_filter
    rw [hall, hnone, List.append_nil] at hpeel
    rw [hd, closedAmong_append, @closedAmong_eq_nil _ _ [.log (.panicking code)] (by simp),
      List.append_nil]
    exact hpeel.symm
  · obtain ⟨added, hfind, hserial⟩ := hkept.frame f.id (List.mem_range.2 (Nat.lt_succ_of_le hid)) f
      (Frame.find?_of_mem hm.orderly.frames.distinct hf)
    refine ⟨added, hfind, ?_⟩
    rw [hserial, hd, stepsIn_append, registeredIn_append]
    exact (List.append_nil _).symm

theorem WalkedTo.le_frame {r : Recovery} {m m' : Machine} (h : m.WalkedTo r m') :
    ∀ id ∈ m'.openIds, id ≤ r.frame := by
  rw [h.openIds]
  exact fun id hid => of_decide_eq_true (List.mem_filter.1 hid).2

/-- Where all that it starts returns and spares the guards that were there before, the walk of a
panic ends at the frame that the panic aims at, if it ends. -/
theorem Marked.walkedTo {r : Recovery} {n : Nat} {code : ErrorCode} {base : List JournalLine}
    {rest : Nat → List Nat} {m : Machine} (hm : m.Marked) (ha : m.aim? = some r)
    (hacc : m.Accounted base rest)
    (hd : ∀ d, StartsCleanup ⟨n, .job (.walk code), m.note (.log (.panicking code))⟩ d →
      ∃ m', d.ReturnsSparing m')
    (hfuel : ∀ m', (Job.run n (.walk code)).run (m.note (.log (.panicking code))) ≠
      ⟨.halted .outOfFuel, m'⟩) :
    ∃ m₁, (Job.run n (.walk code)).run (m.note (.log (.panicking code))) =
        ⟨.unwound (.panicking code r.token), m₁⟩ ∧
      m.WalkedTo r m₁ ∧
      ∃ gone, Activation.ClosesFrames ⟨n, .job (.walk code), m.note (.log (.panicking code))⟩
        passing (m.idsAbove r.frame) gone m₁ := by
  obtain ⟨m', hout⟩ | ⟨m₁, hwalk, hspares, htop⟩ := walk_to_aim (hm.note _)
    (show (m.note (.log (.panicking code))).aim? = some r from ha) (Nat.le_refl _)
    (hm.frame_lt_nextId ha) hd
  · exact (hfuel m' hout).elim
  have hwalked := walkedTo_of_run hm ha hacc (leaves_of_unwound hwalk) hspares htop
  exact ⟨m₁, hwalk, hwalked, closesFrames_of_markedWalk (hm.note _).orderly (hm.torn_of_aim ha)
    hwalk (fun d h => (hd d h).imp fun _ h => h.returned) (mem_openIds_of_innermostId htop)
    hwalked.le_frame⟩

end Machine

/-- Only a call of `recover` adds to the recoveries that are under way. -/
theorem enters_recover {a b : Activation} {r : Recovery} {previous : Option Nat}
    {outer : List Recovery} (h : Enters a (.recover r previous outer) b) :
    ∃ n value body m, a = ⟨n, .stmt (.recover value body), m⟩ ∧
      b = ⟨n, .job (.block body), m.recoveryEntered⟩ ∧ m.thread.torn = false ∧
      r = ⟨m.shared.nextToken, m.rootId⟩ ∧ previous = m.tokenTaken.markFound ∧
      outer = m.thread.recovering := by
  generalize hl : Label.recover r previous outer = l at h
  cases h with
  | recover n value body ht =>
    cases hl
    exact ⟨n, value, body, _, rfl, rfl, ht, rfl, rfl, rfl⟩
  | blockLeft _ => cases ‹Option Transfer› <;> cases hl
  | dropNext _ _ => cases ‹Option Transfer› <;> cases hl
  | scopeLeft _ _ => cases ‹Option Transfer› <;> cases hl
  | _ => cases hl

/-- Calls of `recover` on the way from the one that a panic aims at have other frames and tokens. -/
theorem Path.recovery_ne {a b : Activation} {K : List (Label × Activation)} {r s : Recovery}
    {m : Machine} {previous : Option Nat} {outer : List Recovery} {x : Activation} (h : Path a K b)
    (ha : a.machine.Marked) (hr : r ∈ a.machine.thread.recovering) (hm : m.Marked)
    (hmb : m.thread.recovering = b.machine.thread.recovering) (haim : m.aim? = some r)
    (hx : (Label.recover s previous outer, x) ∈ K) : s.frame ≠ r.frame ∧ s.token ≠ r.token := by
  obtain ⟨K₁, K₂, rfl⟩ := List.append_of_mem hx
  obtain ⟨c, h₁, e, h₂⟩ := h.split
  obtain ⟨t, _, _, he, hrec, ht⟩ | ⟨hne, _⟩ := recovering_of_enters e
  · cases he
    have htoken : r.token < s.token := by
      rw [ht]
      exact Nat.lt_of_lt_of_le (ha.known r hr).2 h₁.tidy.nextToken
    refine ⟨fun hframe => ?_, Nat.ne_of_gt htoken⟩
    have hs := hmb ▸ h₂.recovering_subset s (hrec ▸ List.mem_cons_self)
    rcases hm.le_aim haim hs (hframe ▸ frame_of_aim haim) with rfl | ⟨_, hlt⟩ <;> omega
  · exact (hne _ _ _ rfl).elim

theorem Path.admits {a b : Activation} {K : List (Label × Activation)} {r : Recovery}
    (h : Path a K b) (ha : a.machine.Marked) (hr : r ∈ a.machine.thread.recovering)
    (haim : b.machine.aim? = some r)
    (hK : ∀ x ∈ K, x.1 ≠ .foreign ∧ x.1 ≠ .unwinding) :
    ∀ x ∈ K, x.1.Admits r.frame r.token := by
  rintro ⟨l, x⟩ hx
  obtain ⟨hforeign, hunwinding⟩ := hK _ hx
  cases l with
  | foreign => exact hforeign rfl
  | unwinding => exact hunwinding rfl
  | recover s previous outer => exact h.recovery_ne ha hr (h.marked ha) rfl haim hx
  | _ => trivial

/-- A body that is left by a panic with the token of its call of `recover` makes that call return
the error code; the frame is given its earlier mark, and nothing else is done. -/
theorem run_recover_panicking {exec : Executor} {body : Block} {code : ErrorCode} {m m₁ : Machine}
    (ht : m.thread.torn = false) (ht₁ : m₁.thread.torn = false)
    (h : (exec (.block body)).run m.recoveryEntered =
      ⟨.unwound (.panicking code m.shared.nextToken), m₁⟩) :
    (Effect.recover (exec (.block body))).run m = ⟨.returned (some code),
      ((m₁.note (.log (.recovered code))).withMark m.rootId m.tokenTaken.markFound).withRecovering
        m.thread.recovering⟩ := by
  have hsettle : (settle m.shared.nextToken (exec (.block body))).run m.recoveryEntered =
      ⟨.returned (some code), m₁.note (.log (.recovered code))⟩ := by
    rw [run_settle, h]
    simp only [↓reduceIte]
  rw [run_recover, ht]
  refine run_onExit_returned hsettle ?_
  rw [run_endRecovery, show (m₁.note (.log (.recovered code))).thread.torn = false from ht₁]
  rfl

theorem recover_returns {n : Nat} {body : Block} {code : ErrorCode} {m m₁ : Machine}
    (ht : m.thread.torn = false)
    (h : (Job.run n (.block body)).run m.recoveryEntered =
      ⟨.unwound (.panicking code m.shared.nextToken), m₁⟩) :
    ∃ m', (Effect.recover (Job.run n (.block body))).run m = ⟨.returned (some code), m'⟩ ∧
      m'.thread.frames.frames =
        Frame.update m.rootId (·.withMark m.tokenTaken.markFound) m₁.thread.frames.frames :=
  ⟨_, run_recover_panicking ht
    (((Steady.recoveryEntered m).trans (steady_of_leaves (leaves_of_unwound h))).torn.trans ht) h,
    rfl⟩

/-- If the frame of a call of `recover` that is under way is open, and all that the walk of a panic
starts returns and spares the guards that were there before, then the panic makes the newest such
call return the error code, unless something that stops every unwind is in between.  The walk has
closed the frames above, each time the innermost one: so from the innermost to the outermost, apart
from frames that the cleanups open and leave open.  Frames that are still open have the marks that
they had when the call was entered. -/
theorem panic_reaches_newest_recovery {K : List (Label × Activation)} {n : Nat} {code : ErrorCode}
    {m : Machine} {r : Recovery} (hreach : Reaches K ⟨n, .stmt (.panic (some code)), m⟩)
    (haim : m.aim? = some r)
    (hcleanups : ∀ d, StartsCleanup ⟨n, .job (.walk code), m.note (.log (.panicking code))⟩ d →
      ∃ m', d.ReturnsSparing m')
    (hfuel : ∀ m', (Job.run n (.walk code)).run (m.note (.log (.panicking code))) ≠
      ⟨.halted .outOfFuel, m'⟩)
    (hbetween : ∀ K₁ previous outer a K₂, K = K₁ ++ (.recover r previous outer, a) :: K₂ →
      ∀ x ∈ K₁, x.1 ≠ .foreign ∧ x.1 ≠ .unwinding) :
    ∃ K₁ previous a K₂ value body m₁ m',
      K = K₁ ++ (.recover r previous a.machine.thread.recovering, a) :: K₂ ∧
      a.task = .stmt (.recover value body) ∧
      (Effect.recover (Job.run a.fuel (.block body))).run a.machine = ⟨.returned (some code), m'⟩ ∧
      (∀ x ∈ K₁, ∃ m₂, x.2.run = ⟨.unwound (.panicking code r.token), m₂⟩) ∧
      m.WalkedTo r m₁ ∧
      (∃ gone, Activation.ClosesFrames ⟨n, .job (.walk code), m.note (.log (.panicking code))⟩
        passing (m.idsAbove r.frame) gone m₁) ∧
      m'.thread.frames.frames =
        Frame.update r.frame (·.withMark previous) m₁.thread.frames.frames ∧
      ∀ f ∈ m'.thread.frames.frames,
        f.mark = (Frame.find? f.id a.machine.thread.frames.frames).bind (·.mark) := by
  obtain ⟨root, hstart, hpath⟩ := hreach
  obtain ⟨hroot, hnil⟩ := Marked.of_isRoot hstart
  have hm : m.Marked := hpath.marked hroot
  have hacc : m.Accounted _ _ :=
    hpath.accounted (hstart.accounted (hpath.tidy.torn.symm.trans (hm.torn_of_aim haim)))
  obtain ⟨K₁, previous, outer, a, K₂, rfl⟩ := hpath.call_of_recovering
    (show r ∈ m.thread.recovering from mem_of_aim haim) (by rw [hnil]; exact List.not_mem_nil)
  obtain ⟨c, hout, henter, hin⟩ := hpath.split
  have ha := hout.marked hroot
  have hc := marked_of_enters henter ha
  obtain ⟨k, value, body, ma, rfl, rfl, hta, rfl, rfl, rfl⟩ := enters_recover henter
  have hrec :
      (⟨ma.shared.nextToken, ma.rootId⟩ : Recovery) ∈ ma.recoveryEntered.thread.recovering :=
    List.mem_cons_self
  obtain ⟨m₁, hwalk, hwalked, hcloses⟩ := hm.walkedTo haim hacc hcleanups hfuel
  -- The unwind comes through to the body of the recovery.
  have hpanic : Activation.run ⟨n, .stmt (.panic (some code)), m⟩ =
      ⟨.unwound (.panicking code ma.shared.nextToken), m₁⟩ :=
    unwound_of_enters (.panic n code m) hwalk trivial rfl
  have hpos : 0 < n := by
    cases n with
    | zero => exact (hfuel _ rfl).elim
    | succ n => exact Nat.succ_pos n
  have ht₁ : m₁.thread.torn = false :=
    (steady_of_leaves (leaves_of_unwound hwalk)).torn.trans (hm.torn_of_aim haim)
  have hwithin : Activation.Within (ma.rootId + 1) ma.recoveryEntered.thread.held.length
      ⟨k, .job (.block body), ma.recoveryEntered⟩ :=
    ⟨⟨Nat.le_refl _, fun i hi => absurd hi (by simp)⟩, False.elim⟩
  obtain ⟨m₂, hbody, hsame, hpasses⟩ := unwound_of_path hin hwithin (hc.known _ hrec).1 hc.orderly
    (frame_of_aim haim) hpos (hin.admits hc hrec haim (hbetween _ _ _ _ _ rfl)) hpanic ht₁
    hwalked.le_frame
  obtain ⟨m', hreturns, hframes⟩ := recover_returns hta hbody
  refine ⟨K₁, ma.tokenTaken.markFound, ⟨k, .stmt (.recover value body), ma⟩, K₂, value, body, m₁,
    m', rfl, rfl, hreturns, hpasses, hwalked, hcloses, ?_, ?_⟩
  · rw [hframes, hsame.frames]
  · have hkeep : Marking ma m' := Marking.primitives.obeys_recover
      (Marking.primitives.obeys k (.block body)) _ _ _ (leaves_of_returned hreturns)
    exact fun f hf => hkeep.mark_eq ha hf

end

/-- The machine at a panic inside a recovery, in a scope with two cleanups. -/
def inRecoveredScope : Machine :=
  let entered := (Machine.initial.withHeld [[]]).recoveryEntered
  let scope := (entered.withHeld ([] :: entered.thread.held)).scopeEntered
  ((Stmt.performAll (Job.run 6) leakingCleanup).run
    (scope.withHeld ([] :: scope.thread.held))).machine

theorem reaches_inRecoveredScope :
    ∃ K, Reaches K ⟨6, .stmt (.panic (some .einval)), inRecoveredScope⟩ ∧
      ∀ x ∈ K, x.1 ≠ .foreign ∧ x.1 ≠ .unwinding := by
  have hroot : Activation.IsRoot ⟨9, .job (.block [.recover "value" [.scope
      (leakingCleanup ++ [.panic (some .einval)])]]), .initial⟩ :=
    .body rfl (by decide : 0 < _)
  let entered := (Machine.initial.withHeld [[]]).recoveryEntered
  let scope := (entered.withHeld ([] :: entered.thread.held)).scopeEntered
  let registered := ((Stmt.perform (Job.run 6) (.defer [.emit "older"])).run
    (scope.withHeld ([] :: scope.thread.held))).machine
  refine ⟨_, ⟨_, hroot, (((((((((Path.here.call (.block _ _ _)).call (.first _ _ _ _)).call
    (.recover _ _ _ rfl)).call (.block _ _ _)).call (.first _ _ _ _)).call (.scope _ _ rfl)).call
    (.block _ _ _)).call (@Enters.next _ _ _ _ _ registered rfl)).call
    (@Enters.next _ _ _ _ _ inRecoveredScope rfl)).call (.first _ _ _ _)⟩, ?_⟩
  simp

/-- The walk starts the cleanups of the scope and that of the frame that one of them leaves. -/
theorem returnsSparing_inRecoveredScope (d : Activation)
    (h : StartsCleanup ⟨6, .job (.walk .einval),
      inRecoveredScope.note (.log (.panicking .einval))⟩ d) : ∃ m', d.ReturnsSparing m' := by
  obtain h | ⟨m, hc, h⟩ := h.of_walk rfl
  · obtain rfl | ⟨m, hc, h⟩ := h.of_close rfl rfl
    · exact ⟨_, rfl, by decide⟩
    cases hc
    obtain rfl | ⟨m, hc, h⟩ := h.of_close rfl rfl
    · exact ⟨_, rfl, by decide⟩
    cases hc
    exact (StartsCleanup.not_close rfl rfl h).elim
  · -- The frame that the newer cleanup has opened is the only one above the marked one.
    cases hc
    obtain h | ⟨m, hc, h⟩ := h.of_walk rfl
    · obtain rfl | ⟨m, hc, h⟩ := h.of_close rfl rfl
      · exact ⟨_, rfl, by decide⟩
      cases hc
      exact (StartsCleanup.not_close rfl rfl h).elim
    · cases hc
      cases h with
      | later h hb hc =>
        cases h with
        | passed n code ht hf hm => cases hf; cases hm
        | walkNext ht hf hm h => cases hf; cases hm

theorem panic_reaches_newest_recovery_in_scope :
    ∃ K K₁ previous a K₂ value body m₁ m',
      Reaches K ⟨6, .stmt (.panic (some .einval)), inRecoveredScope⟩ ∧
      inRecoveredScope.aim? = some ⟨1, 0⟩ ∧
      K = K₁ ++ (.recover ⟨1, 0⟩ previous a.machine.thread.recovering, a) :: K₂ ∧
      a.task = .stmt (.recover value body) ∧
      (Effect.recover (Job.run a.fuel (.block body))).run a.machine =
        ⟨.returned (some .einval), m'⟩ ∧
      inRecoveredScope.WalkedTo ⟨1, 0⟩ m₁ ∧
      ∃ gone, Activation.ClosesFrames ⟨6, .job (.walk .einval),
        inRecoveredScope.note (.log (.panicking .einval))⟩ passing [1] gone m₁ := by
  obtain ⟨K, hreach, hK⟩ := reaches_inRecoveredScope
  obtain ⟨K₁, previous, a, K₂, value, body, m₁, m', hsplit, htask, hrun, _, hwalked, hcloses, _⟩ :=
    panic_reaches_newest_recovery hreach (show inRecoveredScope.aim? = some ⟨1, 0⟩ by decide)
      returnsSparing_inRecoveredScope (fun m' h => by cases h)
      (by rintro K₁ previous outer a K₂ rfl x hx; exact hK x (List.mem_append_left _ hx))
  exact ⟨K, K₁, previous, a, K₂, value, body, m₁, m', hreach, by decide, hsplit, htask, hrun,
    hwalked, hcloses⟩

/-- The frame that a cleanup of the walk opens inside the scope and leaves open is closed after that
of the scope, and its cleanup is run after all that wait in the scope. -/
theorem outer_closed_first_inRecoveredScope :
    (∃ K, Reaches K ⟨6, .stmt (.panic (some .einval)), inRecoveredScope⟩ ∧
      ∀ x ∈ K, x.1 ≠ .foreign ∧ x.1 ≠ .unwinding) ∧
    inRecoveredScope.aim? = some ⟨1, 0⟩ ∧ inRecoveredScope.openIds = [1, 0] ∧
    (∀ d, StartsCleanup ⟨6, .job (.walk .einval),
      inRecoveredScope.note (.log (.panicking .einval))⟩ d → ∃ m', d.ReturnsSparing m') ∧
    ∃ m₁, (Job.run 6 (.walk .einval)).run (inRecoveredScope.note (.log (.panicking .einval))) =
        ⟨.unwound (.panicking .einval 1), m₁⟩ ∧
      (closedAmong [1, 2] (inRecoveredScope.deeds m₁)).reverse = [1, 2] ∧
      (startedIn (stepsIn (inRecoveredScope.deeds m₁))).reverse = [1, 0, 2] :=
  ⟨reaches_inRecoveredScope, by decide, rfl, returnsSparing_inRecoveredScope, _, rfl, rfl, rfl⟩

end NonlocalExit
