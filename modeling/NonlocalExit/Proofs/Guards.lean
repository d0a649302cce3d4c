import NonlocalExit.Proofs.Visits

/-!
# Guards of the blocks that were entered since

The lists of guards that a thread holds are stacked like its blocks.  `Machine.HoldsAbove bound
depth` says that the guards of all blocks but the outermost `depth` are of frames from `bound` on.
Every run keeps it, because a block opens the frames of its own guards; on torn storage none is
opened, and no bound is asked for.
-/

namespace NonlocalExit

open Effect

theorem sublist_of_pickGuard {name : String} {g : Guard} {own others : List Guard}
    (h : pickGuard name own = some (g, others)) : others.Sublist own := by
  induction own generalizing others with
  | nil => cases h
  | cons y ys ih =>
    unfold pickGuard at h
    split at h
    · cases h
      exact List.sublist_cons_self _ _
    · obtain ⟨⟨g', rest⟩, hp, he⟩ := Option.map_eq_some_iff.1 h
      cases he
      exact (ih hp).cons_cons y

theorem mem_of_pickGuard {name : String} {g x : Guard} {own others : List Guard}
    (h : pickGuard name own = some (g, others)) (hx : x ∈ own) : x = g ∨ x ∈ others := by
  induction own generalizing others with
  | nil => cases hx
  | cons y ys ih =>
    unfold pickGuard at h
    split at h
    · cases h
      exact List.mem_cons.1 hx
    · obtain ⟨⟨g', rest⟩, hp, he⟩ := Option.map_eq_some_iff.1 h
      cases he
      obtain rfl | hx := List.mem_cons.1 hx
      · exact .inr List.mem_cons_self
      · exact (ih hp hx).imp_right (List.mem_cons_of_mem _)

/-- The guards that are held are the one that is released and the others. -/
theorem mem_flatten_of_pickHeld {name : String} {g x : Guard} {held rest : List (List Guard)}
    (h : pickHeld name held = some (g, rest)) (hx : x ∈ held.flatten) :
    x = g ∨ x ∈ rest.flatten := by
  induction held generalizing rest with
  | nil => cases h
  | cons own outer ih =>
    have hx := List.mem_append.1 (List.flatten_cons ▸ hx)
    unfold pickHeld at h
    split at h
    · rename_i g' others hp
      cases h
      obtain hx | hx := hx
      · exact (mem_of_pickGuard hp hx).imp_right (List.mem_append_left _)
      · exact .inr (List.mem_append_right _ hx)
    · obtain ⟨⟨g', others⟩, hp, he⟩ := Option.map_eq_some_iff.1 h
      cases he
      obtain hx | hx := hx
      · exact .inr (List.mem_append_left _ hx)
      · exact (ih hp hx).imp_right (List.mem_append_right _)

/-- A guard that is released leaves the others where they are. -/
theorem pickHeld_shrinks {name : String} {g : Guard} {held rest : List (List Guard)}
    (h : pickHeld name held = some (g, rest)) :
    rest.length = held.length ∧ ∀ i, (rest.getD i []).Sublist (held.getD i []) := by
  induction held generalizing rest with
  | nil => cases h
  | cons own outer ih =>
    unfold pickHeld at h
    split at h
    · rename_i g' others hp
      cases h
      refine ⟨rfl, fun i => ?_⟩
      cases i with
      | zero => exact sublist_of_pickGuard hp
      | succ i => exact .refl _
    · obtain ⟨⟨g', others⟩, hp, he⟩ := Option.map_eq_some_iff.1 h
      cases he
      obtain ⟨hlen, hsub⟩ := ih hp
      refine ⟨congrArg (· + 1) hlen, fun i => ?_⟩
      cases i with
      | zero => exact .refl _
      | succ i => exact hsub i

theorem getD_tail {α : Type} (xs : List (List α)) (i : Nat) :
    xs.tail.getD i [] = xs.getD (i + 1) [] := by cases xs <;> rfl

theorem mem_flatten_of_tail {α : Type} {xs : List (List α)} {x : α} (h : x ∈ xs.tail.flatten) :
    x ∈ xs.flatten := by
  obtain ⟨ys, hys, hx⟩ := List.mem_flatten.1 h
  exact List.mem_flatten.2 ⟨ys, List.mem_of_mem_tail hys, hx⟩

/-- Where no block holds more guards, all guards that are held were held before. -/
theorem mem_flatten_of_getD {x : Guard} : ∀ {held held' : List (List Guard)},
    (∀ i, (held'.getD i []).Sublist (held.getD i [])) → x ∈ held'.flatten → x ∈ held.flatten
  | held, own :: outer, h, hx => by
    obtain hx | hx := List.mem_append.1 (List.flatten_cons ▸ hx)
    · cases held with
      | nil => exact nomatch (h 0).subset hx
      | cons own' outer' => exact List.mem_append_left _ ((h 0).subset hx)
    · have houter : ∀ i, (outer.getD i []).Sublist (held.tail.getD i []) := fun i => by
        rw [getD_tail]
        exact h (i + 1)
      exact mem_flatten_of_tail (mem_flatten_of_getD houter hx)

theorem mem_flatten_withGuard {g x : Guard} {held : List (List Guard)} :
    x ∈ (withGuard g held).flatten ↔ x = g ∨ x ∈ held.flatten := by
  cases held with
  | nil => simp [withGuard]
  | cons own outer => simp [withGuard]

theorem length_withGuard {g : Guard} {held : List (List Guard)} (h : held ≠ []) :
    (withGuard g held).length = held.length := by
  cases held with
  | nil => exact (h rfl).elim
  | cons own outer => rfl

theorem length_le_withGuard (g : Guard) (held : List (List Guard)) :
    held.length ≤ (withGuard g held).length := by
  cases held with
  | nil => exact Nat.zero_le _
  | cons own outer => exact Nat.le_refl _

theorem mem_withGuard {g x : Guard} {held : List (List Guard)} {i : Nat}
    (h : x ∈ (withGuard g held).getD i []) : x = g ∨ x ∈ held.getD i [] := by
  cases held with
  | nil =>
    cases i with
    | zero => exact .inl (List.mem_singleton.1 h)
    | succ i => exact .inr h
  | cons own outer =>
    cases i with
    | zero => exact List.mem_cons.1 h
    | succ i => exact .inr h

variable [Declarations]

namespace Machine

theorem held_rooted (m : Machine) : m.rooted.thread.held = m.thread.held := by
  unfold rooted
  split <;> rfl

/-- Whether the guards of all blocks but the outermost are of frames from a bound on. -/
structure HoldsAbove (bound depth : Nat) (m : Machine) : Prop where
  depth_le : depth ≤ m.thread.held.length
  above : ∀ i, i + depth < m.thread.held.length → ∀ g ∈ m.thread.held.getD i [], bound ≤ g.frame

/-- What runs do to the guards that are held. -/
structure Holding (m m' : Machine) : Prop extends Steady m m' where
  length : m.thread.held ≠ [] → m'.thread.held.length = m.thread.held.length
  above : ∀ bound depth, (m.thread.torn = false → bound ≤ m.thread.frames.nextId) →
    m.HoldsAbove bound depth → m'.HoldsAbove bound depth

theorem HoldsAbove.push {bound depth : Nat} {m : Machine} (h : m.HoldsAbove bound depth) :
    (m.withHeld ([] :: m.thread.held)).HoldsAbove bound depth := by
  refine ⟨Nat.le_succ_of_le h.depth_le, fun i hi g hg => ?_⟩
  cases i with
  | zero => cases hg
  | succ i =>
    have hi' : i + 1 + depth < m.thread.held.length + 1 := hi
    exact h.above i (by omega) g hg

theorem HoldsAbove.of_held {bound depth : Nat} {m m' : Machine} (h : m.HoldsAbove bound depth)
    (he : m'.thread.held = m.thread.held) : m'.HoldsAbove bound depth :=
  ⟨he ▸ h.depth_le, he ▸ h.above⟩

/-- The guards of the current block, if it was entered since. -/
theorem HoldsAbove.head {bound depth : Nat} {m : Machine} (h : m.HoldsAbove bound depth)
    (hd : depth < m.thread.held.length) : ∀ g ∈ m.thread.held.headD [], bound ≤ g.frame := by
  intro g hg
  refine h.above 0 (by omega) g ?_
  cases hh : m.thread.held with
  | nil => rw [hh] at hg; exact hg
  | cons own outer => rw [hh] at hg; exact hg

namespace Holding

variable {m m₁ m' : Machine}

theorem of_held (hs : Steady m m') (he : m'.thread.held = m.thread.held) : Holding m m' :=
  ⟨hs, fun _ => congrArg List.length he, fun _ _ _ h => h.of_held he⟩

theorem refl (m : Machine) : Holding m m := of_held (.refl m) rfl

theorem trans (h : Holding m m₁) (h' : Holding m₁ m') : Holding m m' := by
  refine ⟨h.toSteady.trans h'.toSteady, fun hne => ?_, fun bound depth hb ha => ?_⟩
  · have hlen := h.length hne
    have hne₁ : m₁.thread.held ≠ [] := by
      intro hnil
      rw [hnil] at hlen
      exact hne (List.length_eq_zero_iff.1 hlen.symm)
    exact (h'.length hne₁).trans hlen
  · refine h'.above bound depth (fun ht => ?_) (h.above bound depth hb ha)
    exact Nat.le_trans (hb (h.torn.symm.trans ht)) h.nextId

theorem note (e : Entry) (m : Machine) : Holding m (m.note e) := of_held (.note e m) rfl

theorem starting (c : Cleanup) (m : Machine) : Holding m (m.starting c) := by
  unfold Machine.starting
  split
  · exact (note _ _).trans (note _ _)
  · exact note _ _

/-- Guards may be taken away. -/
theorem shrinks {held : List (List Guard)} (hl : held.length = m.thread.held.length)
    (hs : ∀ i, ∀ g ∈ held.getD i [], g ∈ m.thread.held.getD i []) :
    Holding m (m.withHeld held) := by
  refine ⟨.withHeld held m, fun _ => hl, fun bound depth _ h => ⟨?_, fun i hi g hg => ?_⟩⟩
  · exact Nat.le_trans h.depth_le (Nat.le_of_eq hl.symm)
  · exact h.above i (Nat.lt_of_lt_of_eq hi hl) g (hs i g hg)

theorem block (h : Holding (m.withHeld ([] :: m.thread.held)) m') :
    Holding m (m'.withHeld m'.thread.held.tail) := by
  have hlen : m'.thread.held.length = m.thread.held.length + 1 := h.length nofun
  have htail : m'.thread.held.tail.length = m.thread.held.length := by
    rw [List.length_tail, hlen, Nat.add_sub_cancel]
  refine ⟨((Steady.withHeld _ _).trans h.toSteady).trans (.withHeld _ _), fun _ => htail,
    fun bound depth hb ha => ⟨?_, fun i hi g hg => ?_⟩⟩
  · exact Nat.le_trans ha.depth_le (Nat.le_of_eq htail.symm)
  · have hi' : i + depth < m'.thread.held.tail.length := hi
    refine (h.above bound depth hb ha.push).above (i + 1) (by omega) g ?_
    cases hh : m'.thread.held with
    | nil => rw [hh] at hlen; cases hlen
    | cons own outer =>
      have hg' : g ∈ m'.thread.held.tail.getD i [] := hg
      rw [hh] at hg'
      exact hg'

/-- A frame that is opened for a guard has a new number. -/
theorem entered (name : String) (ht : m.thread.torn = false) :
    Holding m ((m.opened.note (.log (.enteredFrame m.thread.frames.nextId))).withHeld
      (withGuard ⟨name, m.thread.frames.nextId⟩ m.thread.held)) := by
  have hs : Steady m ((m.opened.note (.log (.enteredFrame m.thread.frames.nextId))).withHeld
      (withGuard ⟨name, m.thread.frames.nextId⟩ m.thread.held)) :=
    ((Steady.opened m).trans (.note _ _)).trans (.withHeld _ _)
  refine ⟨hs, length_withGuard, fun bound depth hb ha => ⟨?_, fun i hi g hg => ?_⟩⟩
  · exact Nat.le_trans ha.depth_le (length_le_withGuard _ _)
  · rcases mem_withGuard hg with rfl | hg
    · exact hb ht
    · have hne : m.thread.held ≠ [] := by
        intro hnil
        rw [hnil] at hg
        cases i <;> cases hg
      exact ha.above i (Nat.lt_of_lt_of_eq hi (length_withGuard hne)) g hg

theorem primitives : AllPrimitives Holding where
  refl := refl
  trans := trans
  steady h := h.toSteady
  aside h := of_held h.steady h.held
  enteredFrame m _ := note _ m
  leftFrame m _ := note _ m
  passed m _ := note _ m
  intercepted m _ := note _ m
  opened m _ := of_held (.opened m) rfl
  closed m id _ _ _ _ := of_held (.closed id m) rfl
  started m id _ c rest _ _ _ := (of_held (.withPending id rest m) rfl).trans (starting c _)
  registered m c s ht hc hs :=
    of_held (Steady.primitives.registered m c s ht hc hs) (held_rooted m.serialTaken)
  registeredLate m c _ _ := ((of_held (.serialTaken m) rfl).trans (note _ _)).trans (starting c _)
  tokenTaken m := of_held (.tokenTaken m) rfl
  block := block
  dropped m g own outer hh := by
    refine shrinks (by rw [hh]; rfl) fun i x hx => ?_
    rw [hh]
    cases i with
    | zero => exact List.mem_cons_of_mem _ hx
    | succ i => exact hx
  entered m name ht := entered name ht
  released m name g rest hp :=
    shrinks (pickHeld_shrinks hp).1 fun i _ hx => ((pickHeld_shrinks hp).2 i).subset hx
  recovery ht h := by
    refine ((of_held (.recoveryEntered _) (held_rooted _)).trans h).trans ?_
    exact (of_held (.withMark _ _ _) rfl).trans (of_held (.withRecovering _ _) rfl)
  thread hg := of_held (.ofThread hg) rfl

end Holding

/-! ## Guards are given up, and of frames that were opened -/

/-- Whether the guards that are held are of frames that have been opened. -/
def HoldsOpened (m : Machine) : Prop :=
  ∀ g ∈ m.thread.held.flatten, g.frame < m.thread.frames.nextId

/-- What runs do to the guards that the blocks around the current one hold: they may be given up,
and none are added. -/
structure Yielding (m m' : Machine) : Prop extends Steady m m' where
  outer : ∀ i, (m'.thread.held.getD (i + 1) []).Sublist (m.thread.held.getD (i + 1) [])
  holdsOpened : m.HoldsOpened → m'.HoldsOpened

theorem HoldsOpened.of_held {m m' : Machine} (h : m.HoldsOpened)
    (hn : m.thread.frames.nextId ≤ m'.thread.frames.nextId)
    (hh : ∀ g ∈ m'.thread.held.flatten, g ∈ m.thread.held.flatten) : m'.HoldsOpened :=
  fun g hg => Nat.lt_of_lt_of_le (h g (hh g hg)) hn

namespace Yielding

variable {m m₁ m' : Machine}

theorem of_held (hs : Steady m m') (he : m'.thread.held = m.thread.held) : Yielding m m' :=
  ⟨hs, fun _ => he ▸ .refl _, fun h => h.of_held hs.nextId fun _ hg => he ▸ hg⟩

theorem refl (m : Machine) : Yielding m m := of_held (.refl m) rfl

theorem trans (h : Yielding m m₁) (h' : Yielding m₁ m') : Yielding m m' :=
  ⟨h.toSteady.trans h'.toSteady, fun i => (h'.outer i).trans (h.outer i),
    fun hm => h'.holdsOpened (h.holdsOpened hm)⟩

theorem note (e : Entry) (m : Machine) : Yielding m (m.note e) := of_held (.note e m) rfl

theorem starting (c : Cleanup) (m : Machine) : Yielding m (m.starting c) := by
  unfold Machine.starting
  split
  · exact (note _ _).trans (note _ _)
  · exact note _ _

theorem shrinks {held : List (List Guard)}
    (h : ∀ i, (held.getD i []).Sublist (m.thread.held.getD i [])) :
    Yielding m (m.withHeld held) :=
  ⟨.withHeld held m, fun i => h (i + 1),
    fun hm => hm.of_held (Nat.le_refl _) fun _ => mem_flatten_of_getD h⟩

theorem block (h : Yielding (m.withHeld ([] :: m.thread.held)) m') :
    Yielding m (m'.withHeld m'.thread.held.tail) := by
  refine ⟨((Steady.withHeld _ _).trans h.toSteady).trans (.withHeld _ _), fun i => ?_, fun hm => ?_⟩
  · show (m'.thread.held.tail.getD (i + 1) []).Sublist _
    rw [getD_tail]
    exact h.outer (i + 1)
  · exact (h.holdsOpened hm).of_held (Nat.le_refl _) fun _ => mem_flatten_of_tail

theorem entered (name : String) :
    Yielding m ((m.opened.note (.log (.enteredFrame m.thread.frames.nextId))).withHeld
      (withGuard ⟨name, m.thread.frames.nextId⟩ m.thread.held)) := by
  have hs : Steady m ((m.opened.note (.log (.enteredFrame m.thread.frames.nextId))).withHeld
      (withGuard ⟨name, m.thread.frames.nextId⟩ m.thread.held)) :=
    ((Steady.opened m).trans (.note _ _)).trans (.withHeld _ _)
  refine ⟨hs, fun i => ?_, fun hm g hg => ?_⟩
  · show ((withGuard _ m.thread.held).getD (i + 1) []).Sublist _
    cases m.thread.held <;> exact .refl _
  · show g.frame < m.thread.frames.nextId + 1
    obtain rfl | hg := mem_flatten_withGuard.1 hg
    · exact Nat.lt_succ_self _
    · exact Nat.lt_succ_of_lt (hm g hg)

theorem primitives : AllPrimitives Yielding where
  refl := refl
  trans := trans
  steady h := h.toSteady
  aside h := of_held h.steady h.held
  enteredFrame m _ := note _ m
  leftFrame m _ := note _ m
  passed m _ := note _ m
  intercepted m _ := note _ m
  opened m _ := of_held (.opened m) rfl
  closed m id _ _ _ _ := of_held (.closed id m) rfl
  started m id _ c rest _ _ _ := (of_held (.withPending id rest m) rfl).trans (starting c _)
  registered m c s ht hc hs :=
    of_held (Steady.primitives.registered m c s ht hc hs) (held_rooted m.serialTaken)
  registeredLate m c _ _ := ((of_held (.serialTaken m) rfl).trans (note _ _)).trans (starting c _)
  tokenTaken m := of_held (.tokenTaken m) rfl
  block := block
  dropped m g own outer hh := shrinks fun i => by
    rw [hh]
    cases i with
    | zero => exact List.sublist_cons_self _ _
    | succ i => exact .refl _
  entered m name _ := entered name
  released m name g rest hp := shrinks (pickHeld_shrinks hp).2
  recovery ht h := by
    refine ((of_held (.recoveryEntered _) (held_rooted _)).trans h).trans ?_
    exact (of_held (.withMark _ _ _) rfl).trans (of_held (.withRecovering _ _) rfl)
  thread hg := of_held (.ofThread hg) rfl

end Yielding

end Machine

end NonlocalExit
