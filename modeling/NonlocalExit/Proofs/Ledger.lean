import NonlocalExit.Journal

/-!
# Keeping account of cleanups

The steps of a thread, newest first, tell for each frame which cleanups were registered in it and
have not been started.  `Balanced` says that this account agrees with the cleanups that wait, and
that every start so far was the start of the newest one that waited in its frame.
-/

namespace NonlocalExit

variable [Declarations]

/-- The steps that a thread has noted on some lines of a journal. -/
def stepsOf (thread : Nat) (lines : List JournalLine) : List Step :=
  lines.filterMap fun l => if l.thread = thread then l.entry.step? else none

theorem stepsOf_append (n : Nat) (new old : List JournalLine) :
    stepsOf n (new ++ old) = stepsOf n new ++ stepsOf n old := List.filterMap_append

theorem stepsOf_eq_nil {n : Nat} {lines : List JournalLine} (h : ∀ l ∈ lines, l.thread ≠ n) :
    stepsOf n lines = [] := by
  unfold stepsOf
  rw [List.filterMap_eq_nil_iff]
  intro l hl
  rw [if_neg (h l hl)]

namespace Step

/-- The cleanup that a step registers. -/
def serial? : Step → Option Nat
  | .registered s _ => some s
  | _ => none

/-- The cleanup that a step registers in a given frame. -/
def registeredIn? (id : Nat) : Step → Option Nat
  | .registered s (some frame) => if frame = id then some s else none
  | _ => none

/-- The cleanup that a step starts. -/
def started? : Step → Option Nat
  | .started s => some s
  | _ => none

end Step

/-- The cleanups that were registered, newest first. -/
def serialsIn (L : List Step) : List Nat := L.filterMap Step.serial?

/-- The cleanups that were registered in a frame, newest first. -/
def registeredIn (id : Nat) (L : List Step) : List Nat := L.filterMap (Step.registeredIn? id)

/-- The cleanups that were started, latest first. -/
def startedIn (L : List Step) : List Nat := L.filterMap Step.started?

/-- The cleanups that were registered in a frame and not started, newest first. -/
def pendingIn (id : Nat) (L : List Step) : List Nat :=
  (registeredIn id L).filter (· ∉ startedIn L)

/-- Whether a cleanup was registered before, and is the newest one that is pending in its frame. -/
def IsNewest (s : Nat) (L : List Step) : Prop :=
  s ∈ serialsIn L ∧ ∀ id, .registered s (some id) ∈ L → (pendingIn id L).head? = some s

/-- The account of the cleanups of a thread.  `waiting` gives the cleanups that wait in each frame;
cleanups from `serial` on and frames from `frame` on are not known yet. -/
structure Balanced (waiting : Nat → List Nat) (serial frame : Nat) (L : List Step) : Prop where
  pending : ∀ id, pendingIn id L = waiting id
  distinct : (serialsIn L).Pairwise fun s t => t < s
  fresh : ∀ s ∈ serialsIn L, s < serial
  frames : ∀ id, frame ≤ id → registeredIn id L = []
  once : (startedIn L).Nodup
  late : ∀ s, .registered s none ∈ L → s ∈ startedIn L
  newest : ∀ later earlier s, L = later ++ .started s :: earlier → IsNewest s earlier

section Membership

variable {L : List Step} {s id : Nat}

theorem mem_serialsIn : s ∈ serialsIn L ↔ ∃ f, .registered s f ∈ L := by
  simp only [serialsIn, List.mem_filterMap]
  constructor
  · rintro ⟨x, hx, hs⟩
    cases x <;> simp [Step.serial?] at hs
    subst hs
    exact ⟨_, hx⟩
  · rintro ⟨f, hf⟩
    exact ⟨_, hf, rfl⟩

theorem mem_registeredIn : s ∈ registeredIn id L ↔ .registered s (some id) ∈ L := by
  simp only [registeredIn, List.mem_filterMap]
  constructor
  · rintro ⟨x, hx, hs⟩
    cases x with
    | registered t f =>
      cases f with
      | none => cases hs
      | some i =>
        simp only [Step.registeredIn?, Option.ite_none_right_eq_some, Option.some.injEq] at hs
        obtain ⟨rfl, rfl⟩ := hs
        exact hx
    | _ => cases hs
  · intro h
    exact ⟨_, h, by simp [Step.registeredIn?]⟩

theorem mem_startedIn : s ∈ startedIn L ↔ .started s ∈ L := by
  simp only [startedIn, List.mem_filterMap]
  constructor
  · rintro ⟨x, hx, hs⟩
    cases x <;> simp [Step.started?] at hs
    subst hs
    exact hx
  · intro h
    exact ⟨_, h, rfl⟩

theorem mem_pendingIn : s ∈ pendingIn id L ↔ .registered s (some id) ∈ L ∧ s ∉ startedIn L := by
  simp [pendingIn, mem_registeredIn]

/-- A cleanup is registered in one frame only. -/
theorem frame_unique (hd : (serialsIn L).Pairwise fun s t => t < s) {f g : Option Nat}
    (hf : .registered s f ∈ L) (hg : .registered s g ∈ L) : f = g := by
  induction L with
  | nil => cases hf
  | cons x L ih =>
    have hnot : ∀ {f}, x = .registered s f → ∀ {g}, ¬.registered s g ∈ L := by
      rintro f rfl g hg
      have := (List.pairwise_cons.1 hd).1 s (mem_serialsIn.2 ⟨g, hg⟩)
      omega
    have hd' : (serialsIn L).Pairwise fun s t => t < s :=
      hd.sublist ((List.sublist_cons_self x L).filterMap _)
    rcases List.mem_cons.1 hf with hf | hf <;> rcases List.mem_cons.1 hg with hg | hg
    · rw [← hg] at hf; cases hf; rfl
    · exact (hnot hf.symm hg).elim
    · exact (hnot hg.symm hf).elim
    · exact ih hd' hf hg

end Membership

/-! ## One more step -/

section Steps

variable {L : List Step} {s id : Nat} {f : Option Nat}

theorem startedIn_registered : startedIn (.registered s f :: L) = startedIn L := rfl

theorem startedIn_started : startedIn (.started s :: L) = s :: startedIn L := rfl

theorem registeredIn_started : registeredIn id (.started s :: L) = registeredIn id L := rfl

theorem registeredIn_self :
    registeredIn id (.registered s (some id) :: L) = s :: registeredIn id L := by
  simp [registeredIn, Step.registeredIn?]

theorem registeredIn_of_ne (h : f ≠ some id) :
    registeredIn id (.registered s f :: L) = registeredIn id L := by
  cases f with
  | none => rfl
  | some i =>
    have hi : ¬i = id := fun hi => h (congrArg some hi)
    simp [registeredIn, Step.registeredIn?, hi]

theorem pendingIn_self (hs : s ∉ startedIn L) :
    pendingIn id (.registered s (some id) :: L) = s :: pendingIn id L := by
  rw [pendingIn, registeredIn_self, startedIn_registered,
    List.filter_cons_of_pos (by simpa using hs)]
  rfl

theorem pendingIn_of_ne (h : f ≠ some id) :
    pendingIn id (.registered s f :: L) = pendingIn id L := by
  rw [pendingIn, registeredIn_of_ne h, startedIn_registered]
  rfl

theorem pendingIn_started :
    pendingIn id (.started s :: L) = (pendingIn id L).filter (· ≠ s) := by
  rw [pendingIn, registeredIn_started, startedIn_started, pendingIn, List.filter_filter]
  refine List.filter_congr fun t _ => ?_
  simp

/-- The cleanups of a frame are distinct. -/
theorem nodup_registeredIn (hd : (serialsIn L).Pairwise fun s t => t < s) (id : Nat) :
    (registeredIn id L).Nodup := by
  induction L with
  | nil => exact .nil
  | cons x L ih =>
    have hd' : (serialsIn L).Pairwise fun s t => t < s :=
      hd.sublist ((List.sublist_cons_self x L).filterMap _)
    by_cases hx : ∃ s, x = .registered s (some id)
    · obtain ⟨s, rfl⟩ := hx
      rw [registeredIn_self]
      refine List.nodup_cons.2 ⟨fun hs => ?_, ih hd'⟩
      have := (List.pairwise_cons.1 hd).1 s (mem_serialsIn.2 ⟨_, mem_registeredIn.1 hs⟩)
      exact Nat.lt_irrefl _ this
    · have hnone : x.registeredIn? id = none := by
        cases x with
        | registered s f =>
          cases f with
          | none => rfl
          | some i =>
            have hi : ¬i = id := by rintro rfl; exact hx ⟨s, rfl⟩
            simp [Step.registeredIn?, hi]
        | _ => rfl
      rw [registeredIn, List.filterMap_cons_none hnone]
      exact ih hd'

end Steps

namespace Balanced

variable {W W' : Nat → List Nat} {N K : Nat} {L : List Step}

theorem empty (N K : Nat) : Balanced (fun _ => []) N K [] := by
  constructor <;> simp [pendingIn, registeredIn, serialsIn, startedIn]

theorem known (h : Balanced W N K L) {s : Nat} (hs : s ∈ startedIn L) : s ∈ serialsIn L := by
  obtain ⟨later, earlier, rfl⟩ := List.append_of_mem (mem_startedIn.1 hs)
  obtain ⟨f, hf⟩ := mem_serialsIn.1 (h.newest _ _ _ rfl).1
  exact mem_serialsIn.2 ⟨f, List.mem_append_right _ (List.mem_cons_of_mem _ hf)⟩

/-- What was registered in a frame was started, if nothing waits there. -/
theorem mem_startedIn_of_empty (h : Balanced W N K L) {id s : Nat} (hW : W id = [])
    (hs : s ∈ registeredIn id L) : s ∈ startedIn L := by
  refine Decidable.byContradiction fun hnot => ?_
  have hp : s ∈ pendingIn id L := mem_pendingIn.2 ⟨mem_registeredIn.1 hs, hnot⟩
  simp [h.pending, hW] at hp

theorem mono (h : Balanced W N K L) {N' K' : Nat} (hN : N ≤ N') (hK : K ≤ K') :
    Balanced W N' K' L :=
  { h with
    fresh := fun s hs => Nat.lt_of_lt_of_le (h.fresh s hs) hN
    frames := fun id hid => h.frames id (Nat.le_trans hK hid) }

theorem congr (h : Balanced W N K L) (hW : ∀ id, W' id = W id) : Balanced W' N K L :=
  { h with pending := fun id => (h.pending id).trans (hW id).symm }

theorem fresh_succ (h : Balanced W N K L) (f : Option Nat) :
    ∀ s ∈ serialsIn (.registered N f :: L), s < N + 1 := by
  intro s hs
  obtain rfl | hs := List.mem_cons.1 hs
  · exact Nat.lt_succ_self _
  · exact Nat.lt_succ_of_lt (h.fresh s hs)

theorem newest_cons (h : Balanced W N K L) {x : Step} (hx : ∀ s, x ≠ .started s) :
    ∀ later earlier s, x :: L = later ++ .started s :: earlier → IsNewest s earlier := by
  intro later earlier s heq
  cases later with
  | nil => exact absurd (List.cons.inj heq).1 (hx s)
  | cons y later => exact h.newest later earlier s (List.cons.inj heq).2

/-- Steps that neither register nor start a cleanup do not count. -/
theorem other (h : Balanced W N K L) {x : Step} (hr : x.serial? = none)
    (hs : x.started? = none) : Balanced W N K (x :: L) := by
  have hi : ∀ id, x.registeredIn? id = none := by
    intro id
    cases x <;> first | rfl | cases hr
  have hserials : serialsIn (x :: L) = serialsIn L := by simp [serialsIn, hr]
  have hstarted : startedIn (x :: L) = startedIn L := by simp [startedIn, hs]
  have hin : ∀ id, registeredIn id (x :: L) = registeredIn id L := by
    intro id; simp [registeredIn, hi]
  refine ⟨?_, hserials ▸ h.distinct, hserials ▸ h.fresh, ?_, hstarted ▸ h.once, ?_, ?_⟩
  · intro id
    rw [pendingIn, hin, hstarted]
    exact h.pending id
  · intro id hid
    rw [hin]
    exact h.frames id hid
  · intro s hm
    rw [hstarted]
    obtain rfl | hm := List.mem_cons.1 hm
    · cases hr
    · exact h.late s hm
  · exact h.newest_cons (by rintro s rfl; cases hs)

/-- A cleanup is registered in a frame. -/
theorem registered (h : Balanced W N K L) {id : Nat} (hid : id < K) (hself : W' id = N :: W id)
    (hne : ∀ i, i ≠ id → W' i = W i) :
    Balanced W' (N + 1) K (.registered N (some id) :: L) := by
  have hfresh : N ∉ startedIn L := fun hs => Nat.lt_irrefl _ (h.fresh N (h.known hs))
  refine ⟨?_, List.pairwise_cons.2 ⟨h.fresh, h.distinct⟩, ?_, ?_, h.once, ?_, ?_⟩
  · intro i
    by_cases hi : i = id
    · subst hi
      rw [hself, pendingIn_self hfresh, h.pending]
    · rw [hne i hi, pendingIn_of_ne (by simpa using Ne.symm hi), h.pending]
  · exact h.fresh_succ _
  · intro i hi
    rw [registeredIn_of_ne (by simp; omega)]
    exact h.frames i hi
  · intro s hm
    obtain hm | hm := List.mem_cons.1 hm
    · cases hm
    · exact h.late s hm
  · exact h.newest_cons (by simp)

/-- A cleanup is registered in no frame and started at once. -/
theorem registeredLate (h : Balanced W N K L) :
    Balanced W (N + 1) K (.started N :: .registered N none :: L) := by
  have hfresh : N ∉ startedIn L := fun hs => Nat.lt_irrefl _ (h.fresh N (h.known hs))
  have hnot : ∀ id, N ∉ pendingIn id L := by
    intro id hN
    exact Nat.lt_irrefl _ (h.fresh N (mem_serialsIn.2 ⟨_, (mem_pendingIn.1 hN).1⟩))
  refine ⟨?_, List.pairwise_cons.2 ⟨h.fresh, h.distinct⟩, h.fresh_succ none, ?_,
    List.nodup_cons.2 ⟨hfresh, h.once⟩, ?_, ?_⟩
  · intro id
    rw [pendingIn_started, pendingIn_of_ne (by simp), ← h.pending, List.filter_eq_self]
    intro s hs
    simp only [decide_eq_true_eq]
    rintro rfl
    exact hnot id hs
  · intro id hid
    rw [registeredIn_started, registeredIn_of_ne (by simp)]
    exact h.frames id hid
  · intro s hm
    rw [startedIn_started]
    simp only [List.mem_cons, reduceCtorEq, false_or, Step.registered.injEq, and_true] at hm ⊢
    exact hm.imp id fun hm => h.late s hm
  · intro later earlier s heq
    cases later with
    | nil =>
      cases heq
      refine ⟨List.mem_cons_self, fun id hm => ?_⟩
      obtain hm | hm := List.mem_cons.1 hm
      · cases hm
      · exact absurd (h.fresh N (mem_serialsIn.2 ⟨_, hm⟩)) (Nat.lt_irrefl _)
    | cons y later =>
      obtain ⟨-, heq⟩ := List.cons.inj heq
      exact h.newest_cons (by simp) later earlier s heq

/-- The newest cleanup that waits in a frame is started. -/
theorem started (h : Balanced W N K L) {id s : Nat} {rest : List Nat} (hW : W id = s :: rest)
    (hself : W' id = rest) (hne : ∀ i, i ≠ id → W' i = W i) :
    Balanced W' N K (.started s :: L) := by
  have hp : pendingIn id L = s :: rest := (h.pending id).trans hW
  have hs : .registered s (some id) ∈ L ∧ s ∉ startedIn L :=
    mem_pendingIn.1 (hp ▸ List.mem_cons_self)
  refine ⟨?_, h.distinct, h.fresh, h.frames, List.nodup_cons.2 ⟨hs.2, h.once⟩, ?_, ?_⟩
  · intro i
    rw [pendingIn_started]
    by_cases hi : i = id
    · subst hi
      have hnodup : (s :: rest).Nodup := hp ▸ (nodup_registeredIn h.distinct i).filter _
      rw [hself, hp, List.filter_cons_of_neg (by simp), List.filter_eq_self]
      intro t ht
      simp only [decide_eq_true_eq]
      rintro rfl
      exact (List.nodup_cons.1 hnodup).1 ht
    · rw [hne i hi, ← h.pending, List.filter_eq_self]
      intro t ht
      simp only [decide_eq_true_eq]
      rintro rfl
      exact hi (Option.some.inj (frame_unique h.distinct (mem_pendingIn.1 ht).1 hs.1))
  · intro t ht
    obtain ht | ht := List.mem_cons.1 ht
    · cases ht
    · exact List.mem_cons_of_mem _ (h.late t ht)
  · intro later earlier t heq
    cases later with
    | nil =>
      cases heq
      refine ⟨mem_serialsIn.2 ⟨_, hs.1⟩, fun i hi => ?_⟩
      obtain rfl := Option.some.inj (frame_unique h.distinct hi hs.1)
      rw [hp]
      rfl
    | cons y later =>
      obtain ⟨-, heq⟩ := List.cons.inj heq
      exact h.newest later earlier t heq

/-- When nothing waits, every cleanup was started, and only once. -/
theorem settled (h : Balanced (fun _ => []) N K L) {s : Nat} (hs : s ∈ serialsIn L) :
    (startedIn L).count s = 1 := by
  have hmem : s ∈ startedIn L := by
    obtain ⟨f, hf⟩ := mem_serialsIn.1 hs
    cases f with
    | none => exact h.late s hf
    | some id => exact h.mem_startedIn_of_empty rfl (mem_registeredIn.2 hf)
  rw [h.once.count, if_pos hmem]

end Balanced

end NonlocalExit
