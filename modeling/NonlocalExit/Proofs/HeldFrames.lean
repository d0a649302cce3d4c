import NonlocalExit.Proofs.Piecewise
import NonlocalExit.Proofs.SessionEnds

/-!
# Frames that are held

A frame that is opened inside a block is closed at the end of the block because a guard holds it, or
because a scope or a session waits for the end of what it runs.  `Activation.GivesAway` lists the
ways in which this comes to nothing: a guard is leaked, closing is cut short by an unwind, or there
is nobody to close a root frame.  `Activation.guarded` says that there are no others: however a
piece is left, each open frame is held by a guard, was open and not held before, or was given away
in the course of the piece.
-/

namespace NonlocalExit

variable [Declarations]

open Effect Machine

/-! ### Pieces that leave no guards of their own -/

/-- Whether no block holds guards that it has not held before. -/
def Machine.HoldsLess (m m' : Machine) : Prop :=
  ∀ i, (m'.thread.held.getD i []).Sublist (m.thread.held.getD i [])

section

variable {n : Nat} {m m₁ m' : Machine} {o : Option Transfer}

theorem Machine.HoldsLess.trans (h : m.HoldsLess m₁) (h' : m₁.HoldsLess m') : m.HoldsLess m' :=
  fun i => (h' i).trans (h i)

theorem Machine.HoldsLess.of_held (h : m'.thread.held = m.thread.held) : m.HoldsLess m' :=
  fun _ => h ▸ .refl _

/-- The guards that a block holds when it ends are given up with it. -/
theorem holdsLess_of_block {ss : Block} (h : ((Job.run n (.block ss)).run m).Leaves o m') :
    m.HoldsLess m' := by
  cases n with
  | zero => cases h
  | succ n =>
    have P := Machine.Yielding.primitives
    have hleave : ∀ {o m₁ o'}, ((Stmt.performAll (Job.run n) ss).run
        (m.withHeld ([] :: m.thread.held))).Leaves o m₁ →
        ((leaveBlock (Job.run n)).run m₁).Leaves o' m' → m.HoldsLess m' := by
      intro o m₁ o' hb hl i
      have hbody := P.obeys_run (a := ⟨n, .rest ss, _⟩) hb
      have hpop : ∀ {o₂ m₂}, ((dropGuards (Job.run n) (m₁.thread.held.headD []).length).run
          m₁).Leaves o₂ m₂ → m' = m₂.withHeld m₂.thread.held.tail →
          (m'.thread.held.getD i []).Sublist (m.thread.held.getD i []) := by
        rintro o₂ m₂ hd rfl
        have hdrops := P.obeys_run (a := ⟨n, .drops _, _⟩) hd
        show (m₂.thread.held.tail.getD i []).Sublist _
        rw [getD_tail]
        exact (hdrops.outer i).trans (hbody.outer i)
      rw [run_leaveBlock] at hl
      obtain ⟨_, m₂, hd, hp⟩ | ⟨_, m₂, hd, hp, -⟩ := leaves_onExit.1 hl
      · cases hp
        exact hpop (leaves_of_returned hd) rfl
      · cases hp
        exact hpop (leaves_of_unwound hd) rfl
    have h' : ((onExit (Stmt.performAll (Job.run n) ss) (leaveBlock (Job.run n))).run
        (m.withHeld ([] :: m.thread.held))).Leaves o m' := h
    obtain ⟨_, m₁, hb, hl⟩ | ⟨_, m₁, hb, hl, -⟩ := leaves_onExit.1 h'
    · exact hleave (leaves_of_returned hb) hl
    · exact hleave (leaves_of_unwound hb) hl

theorem held_starting (c : Cleanup) (m : Machine) : (m.starting c).thread.held = m.thread.held := by
  unfold Machine.starting
  split <;> rfl

theorem holdsLess_of_startCleanup {c : Cleanup}
    (h : ((startCleanup (Job.run n) c).run m).Leaves o m') : m.HoldsLess m' := by
  rw [run_startCleanup] at h
  exact (Machine.HoldsLess.of_held (held_starting c m)).trans (holdsLess_of_block h)

theorem holdsLess_of_close {id : Nat} (h : ((Job.run n (.close id)).run m).Leaves o m') :
    m.HoldsLess m' := by
  induction n generalizing m with
  | zero => cases h
  | succ n ih =>
    cases closeEnds_of_leaves h with
    | torn => exact .of_held rfl
    | absent => exact .of_held rfl
    | empty => exact .of_held rfl
    | cleanup ht hf hp hx =>
      rw [← run_startCleanup] at hx
      have hstart := holdsLess_of_startCleanup (leaves_of_unwound hx)
      exact hstart
    | next ht hf hp hc hl =>
      have hstart := holdsLess_of_startCleanup (leaves_of_returned hc)
      exact Machine.HoldsLess.trans hstart (ih hl)

/-- When as many guards have been dropped as the current block held, it holds none. -/
theorem head_of_drops {count : Nat} (hle : (m.thread.held.headD []).length ≤ count)
    (h : ((dropGuards (Job.run n) count).run m).Leaves o m') : m'.thread.held.headD [] = [] := by
  induction count generalizing m o with
  | zero =>
    obtain ⟨-, rfl⟩ := leaves_pure.1 h
    exact List.length_eq_zero_iff.1 (Nat.le_zero.1 hle)
  | succ count ih =>
    match hh : m.thread.held with
    | [] | [] :: _ =>
      rw [dropGuards_none count (by rw [hh]; rfl)] at h
      cases h
      rw [hh]
      rfl
    | (g :: own) :: outer =>
      have hnext : ∀ {o m₁}, ((leaveFrame (Job.run n) g.frame).run
          (m.withHeld (own :: outer))).Leaves o m₁ →
          (m₁.thread.held.headD []).length ≤ count := by
        intro o m₁ hl
        have hless := holdsLess_of_close (m := (m.withHeld (own :: outer)).leaving g.frame) hl 0
        rw [hh] at hle
        have hhead : m₁.thread.held.headD [] = m₁.thread.held.getD 0 [] := by
          cases m₁.thread.held <;> rfl
        rw [hhead]
        exact Nat.le_trans hless.length_le (Nat.le_of_succ_le_succ hle)
      rw [dropGuards_held count hh] at h
      obtain ⟨_, m₁, hl, hd⟩ | ⟨_, m₁, hl, hd, -⟩ := leaves_onExit.1 h
      · exact ih (hnext (leaves_of_returned hl)) hd
      · exact ih (hnext (leaves_of_unwound hl)) hd

end

/-! ## Frames that nobody closes -/

/-- Whether a statement opens a root frame on a thread on which no frame is open. -/
inductive Stmt.Roots : Stmt → Thread → Prop
  | defer (body t) : Roots (.defer body) t
  | deferWith (a body t) : Roots (.deferWith a body) t
  | recover (value body t) : Roots (.recover value body) t
  | initThread {t} (h : t.initialised = false) : Roots .initThread t
  | init (settings) {t} (h : t.initialised = false) : Roots (.init (some settings)) t

/-- Which frames a piece of a run leaves to nobody. -/
inductive Activation.GivesAway : Activation → Nat → Prop
  /-- The guard of the frame is leaked. -/
  | leaked (n) {name g held} {m : Machine} (h : pickHeld name m.thread.held = some (g, held)) :
    GivesAway ⟨n, .stmt (.leak name), m⟩ g.frame
  /-- The closing of the frame is cut short by an unwind from one of its cleanups. -/
  | cut {n id t m m'} (h : (Job.run n (.close id)).run m = ⟨.unwound t, m'⟩) :
    GivesAway ⟨n, .job (.close id), m⟩ id
  /-- The closing of the frames of a session is cut short, and with it that of the frame that was
  opened for the session. -/
  | session {n status body o t} {m m₁ m' : Machine}
    (hb : ((Job.run n (.block body)).run m.sessionEntered).Leaves o m₁)
    (hc : (Job.run n (.closeAbove m.innermostId)).run m₁ = ⟨.unwound t, m'⟩) :
    GivesAway ⟨n, .session status body, m⟩ m.thread.frames.nextId
  /-- A root frame is opened. -/
  | root (n) {s} {m : Machine} (hs : s.Roots m.thread) (hf : m.thread.frames.frames = []) :
    GivesAway ⟨n, .stmt s, m⟩ m.thread.frames.nextId

/-- Which frames are left to nobody in the course of a piece. -/
def Activation.Loses (a : Activation) (id : Nat) : Prop := ∃ K b, Path a K b ∧ b.GivesAway id

section

variable {a b : Activation} {l : Label} {id : Nat}

theorem Activation.GivesAway.loses (h : a.GivesAway id) : a.Loses id := ⟨[], a, .here, h⟩

theorem Activation.Loses.of_call (h : b.Loses id) (e : Enters a l b) : a.Loses id := by
  obtain ⟨K, c, hpath, hgives⟩ := h
  exact ⟨_, c, Path.here.join e hpath, hgives⟩

end

/-- Whether each open frame is held by a guard, or is one of those for which `S` holds. -/
def Thread.Guarded (S : Nat → Prop) (t : Thread) : Prop :=
  ∀ id ∈ t.frames.frames.map (·.id), S id ∨ ∃ g ∈ t.held.flatten, g.frame = id

namespace Thread.Guarded

variable {S S' : Nat → Prop} {t t' : Thread} {m : Machine} {id : Nat}

theorem isLocal : Local (fun _ => True) (Thread.Guarded S) :=
  ⟨fun _ _ => trivial, fun h hf hh _ => by unfold Thread.Guarded; rw [hf, hh]; exact h⟩

theorem mono (h : t.Guarded S) (hS : ∀ id, S id → S' id) : t.Guarded S' :=
  fun id hid => (h id hid).imp_left (hS id)

/-- No frame has been opened, and no guard given up. -/
theorem of_ids (h : t.Guarded S)
    (hf : ∀ id ∈ t'.frames.frames.map (·.id), id ∈ t.frames.frames.map (·.id))
    (hh : ∀ g ∈ t.held.flatten, g ∈ t'.held.flatten) : t'.Guarded S := by
  intro id hid
  obtain hs | ⟨g, hg, he⟩ := h id (hf id hid)
  · exact .inl hs
  · exact .inr ⟨g, hh g hg, he⟩

theorem of_eq (h : t.Guarded S) (hf : t'.frames.frames.map (·.id) = t.frames.frames.map (·.id))
    (hh : t'.held = t.held) : t'.Guarded S :=
  h.of_ids (fun _ hid => hf ▸ hid) fun _ hg => hh ▸ hg

/-- A frame that is not open needs nobody. -/
theorem without (h : t.Guarded fun i => S i ∨ i = id)
    (hid : id ∈ t.frames.frames.map (·.id) → S id) : t.Guarded S := by
  intro i hi
  obtain (hs | rfl) | hg := h i hi
  · exact .inl hs
  · exact .inl (hid hi)
  · exact .inr hg

/-- A guard is given up. -/
theorem released {g : Guard} {held : List (List Guard)} (h : m.thread.Guarded S)
    (hg : ∀ x ∈ m.thread.held.flatten, x = g ∨ x ∈ held.flatten) :
    (m.withHeld held).thread.Guarded fun i => S i ∨ i = g.frame := by
  intro i hi
  obtain hs | ⟨x, hx, rfl⟩ := h i hi
  · exact .inl (.inl hs)
  · obtain rfl | hx := hg x hx
    · exact .inl (.inr rfl)
    · exact .inr ⟨x, hx, rfl⟩

theorem opened (h : m.thread.Guarded S) :
    m.opened.thread.Guarded fun i => S i ∨ i = m.thread.frames.nextId := by
  intro i hi
  obtain rfl | hi := List.mem_cons.1 hi
  · exact .inl (.inr rfl)
  · exact (h i hi).imp_left .inl

theorem rooted (h : m.thread.Guarded S)
    (hroot : m.thread.frames.frames = [] → S m.thread.frames.nextId) :
    m.rooted.thread.Guarded S := by
  unfold Machine.rooted
  split
  · rename_i hf
    exact h.opened.without fun _ => hroot hf
  · exact h

theorem threadDeclared (h : m.thread.Guarded S)
    (hroot : m.thread.initialised = false → m.thread.frames.frames = [] →
      S m.thread.frames.nextId) : m.threadDeclared.thread.Guarded S := by
  unfold Machine.threadDeclared
  cases hi : m.thread.initialised with
  | true => exact h.of_eq rfl rfl
  | false => exact rooted (m := m.declared) (h.of_eq rfl rfl) (hroot hi)

theorem nextId_threadDeclared (h : m.threadDeclared.innermostId = m.innermostId) :
    m.threadDeclared.thread.frames.nextId = m.thread.frames.nextId := by
  unfold Machine.threadDeclared at h ⊢
  split
  · rfl
  · rename_i hi
    rw [if_neg hi, innermostId_rooted] at h
    unfold Machine.rooted
    split
    · rename_i hf
      have hnone : m.innermostId = none := by
        unfold Machine.innermostId FrameStack.innermost?
        rw [show m.thread.frames.frames = [] from hf]
        rfl
      cases h.trans hnone
    · rfl

/-- A session opens one frame. -/
theorem sessionEntered (h : m.thread.Guarded S) :
    m.sessionEntered.thread.Guarded fun i => S i ∨ i = m.thread.frames.nextId := by
  have hdeclared : m.threadDeclared.thread.Guarded fun i => S i ∨ i = m.thread.frames.nextId :=
    (h.mono fun _ => .inl).threadDeclared fun _ _ => .inr rfl
  unfold Machine.sessionEntered
  split
  · rename_i hid
    refine hdeclared.opened.mono fun i hi => hi.elim id fun he => .inr ?_
    rw [he, nextId_threadDeclared hid]
  · exact hdeclared

end Thread.Guarded

/-! ## Pieces that handle frames -/

namespace Thread.Guarded

section

variable {S : Nat → Prop} {n : Nat} {m : Machine}

/-- A frame that is to be closed needs nobody afterwards, if its closing is not cut short. -/
theorem closing {a : Activation} {l : Label} {k id : Nat} {m₁ : Machine}
    (ho : a.machine.Orderly) (hL : ∀ id, a.Loses id → S id)
    (e : Enters a l ⟨k, .job (.close id), m₁⟩)
    (h : Activation.Ends (Thread.Guarded fun i => S i ∨ i = id) ⟨k, .job (.close id), m₁⟩) :
    Activation.Ends (Thread.Guarded S) ⟨k, .job (.close id), m₁⟩ := by
  intro o m' hl
  refine (h o m' hl).without fun hid => ?_
  obtain ⟨_, hr, rfl⟩ | ⟨t, hu, rfl⟩ := Leaves.cases hl
  · exact (closed_of_returned ((tidy_of_enters e).orderly ho) hr hid).elim
  · exact hL id ((Activation.GivesAway.cut hu).loses.of_call e)

theorem defer {argument : Option String} {body : Block} (h : m.thread.Guarded S)
    (hroot : m.thread.frames.frames = [] → S m.thread.frames.nextId)
    (hlate : m.thread.torn = true → Activation.Ends (Thread.Guarded S)
      ⟨n, .job (.block body), m.startedLate ⟨m.shared.nextSerial, argument, body⟩⟩) :
    (Effect.defer (Job.run n) argument body).Ends (Thread.Guarded S) m := by
  intro o m' hl
  rw [run_defer] at hl
  dsimp only at hl
  split at hl
  · rename_i ht
    rw [run_startCleanup] at hl
    exact hlate ht _ _ hl
  · split at hl
    · rename_i s hs
      cases hl
      obtain ⟨f, fs, hf, -, rfl⟩ := FrameStack.add?_eq_some.1 hs
      have hrooted : m.serialTaken.rooted.thread.Guarded S := rooted (m := m.serialTaken) h hroot
      refine hrooted.of_eq ?_ rfl
      rw [hf]
      rfl
    · cases hl

theorem declareThread (h : m.thread.Guarded S)
    (hroot : m.thread.initialised = false → m.thread.frames.frames = [] →
      S m.thread.frames.nextId) : Effect.declareThread.Ends (Thread.Guarded S) m := by
  refine .bind (fun o m' hl => ?_) fun first _ _ h => ?_
  · have hdeclared := h.threadDeclared hroot
    unfold Machine.threadDeclared at hdeclared
    rw [run_initThread] at hl
    split at hl
    · rename_i hi
      cases hl
      rwa [if_pos hi] at hdeclared
    · rename_i hi
      rw [if_neg hi] at hdeclared
      split at hl
      · cases hl
        exact h
      · cases hl
        exact hdeclared
  · cases first with
    | true => exact .pure _ h
    | false => exact .note _ h

theorem recoveryEntered (h : m.thread.Guarded S)
    (hroot : m.thread.frames.frames = [] → S m.thread.frames.nextId) :
    m.recoveryEntered.thread.Guarded S :=
  (rooted (m := m.tokenTaken) h hroot).of_eq (map_id_withMark _) rfl

theorem endRecovery {frame : Nat} {previous : Option Nat} {outer : List Recovery}
    (h : m.thread.Guarded S) :
    (Effect.endRecovery frame previous outer).Ends (Thread.Guarded S) m := by
  intro o m' hl
  rw [run_endRecovery] at hl
  split at hl
  · cases hl
    exact h
  · cases hl
    exact h.of_eq (map_id_withMark _) rfl

theorem enter {name : String} (h : m.thread.Guarded S) :
    Activation.Ends (Thread.Guarded S) ⟨n, .stmt (.enter name), m⟩ := by
  intro o m' hl
  obtain ⟨id, m₁, hr, hl⟩ | ⟨t, hu, rfl⟩ := leaves_bind.1 hl
  · rw [run_enterFrame] at hr
    obtain ⟨ht, hr⟩ := returned_of_storage hr
    cases hr
    rw [run_hold] at hl
    cases hl
    intro i hi
    obtain (hs | rfl) | ⟨g, hg, he⟩ := h.opened i hi
    · exact .inl hs
    · exact .inr ⟨_, mem_flatten_withGuard.2 (.inl rfl), rfl⟩
    · exact .inr ⟨g, mem_flatten_withGuard.2 (.inr hg), he⟩
  · rw [run_enterFrame] at hu
    split at hu
    · cases hu
      exact h
    · cases hu

theorem leak {name : String} (h : m.thread.Guarded S)
    (hleaked : ∀ g held, pickHeld name m.thread.held = some (g, held) → S g.frame) :
    Activation.Ends (Thread.Guarded S) ⟨n, .stmt (.leak name), m⟩ := by
  refine Ends.bind (fun o m' hl => ?_) fun _ _ _ h => .pure _ h
  rw [run_releaseGuard] at hl
  split at hl
  · cases hl
    exact h
  · rename_i g held hp
    cases hl
    have hreleased := h.released fun x => mem_flatten_of_pickHeld hp
    exact hreleased.without fun _ => hleaked g held hp

end

/-! ### Pieces that call others

`H` is what is known of the calls, for all sets that a piece may turn to. -/

section

variable {S : Nat → Prop} {n : Nat} {m : Machine}

theorem block {ss : Block} (h : m.thread.Guarded S)
    (H : ∀ l b, Enters ⟨n, .job (.block ss), m⟩ l b → b.machine.thread.Guarded S →
      b.Ends (Thread.Guarded S)) :
    Activation.Ends (Thread.Guarded S) ⟨n, .job (.block ss), m⟩ := by
  cases n with
  | zero => exact fun _ _ hl => nomatch hl
  | succ n =>
    have hbody := H _ _ (.block n ss m) h
    refine Ends.of_run (run_asBlock _ _ _) (.onExit hbody fun o m₁ hl h₁ => ?_)
    have hleft := H _ _ (.blockLeft hl) h₁
    refine Ends.of_run (run_leaveBlock _ _) (.onExit hleft fun _ m₂ hd h₂ => ?_)
    refine .modify (h₂.of_ids (fun _ hid => hid) fun g hg => ?_)
    -- The guards that the block held are dropped, so its list is empty.
    have hnone : m₂.thread.held.headD [] = [] := head_of_drops (Nat.le_refl _) hd
    show g ∈ m₂.thread.held.tail.flatten
    cases hh : m₂.thread.held with
    | nil =>
      rw [hh] at hg
      exact hg
    | cons own outer =>
      rw [hh] at hg hnone
      obtain rfl : own = [] := hnone
      exact hg

theorem close {id : Nat} (h : m.thread.Guarded S)
    (H : ∀ l b, Enters ⟨n, .job (.close id), m⟩ l b → b.machine.thread.Guarded S →
      b.Ends (Thread.Guarded S)) :
    Activation.Ends (Thread.Guarded S) ⟨n, .job (.close id), m⟩ := by
  intro o m' hl
  cases n with
  | zero => cases hl
  | succ n =>
    have hcleanup : ∀ {f c cs}, m.thread.torn = false →
        Frame.find? id m.thread.frames.frames = some f → f.pending = c :: cs →
        (startCleanup (Job.run n) c).Ends (Thread.Guarded S) (m.withPending id cs) :=
      fun ht hf hp => .of_run (run_startCleanup _ _ _) <|
        H _ _ (.cleanup n ht hf hp) (h.of_eq (openIds_starting _ _) (held_starting _ _))
    cases closeEnds_of_leaves hl with
    | torn => exact h
    | absent => exact h
    | empty => exact h.of_ids (fun _ hi => (Frame.erase_sublist.map _).subset hi) fun _ hg => hg
    | cleanup ht hf hp hx =>
      rw [← run_startCleanup] at hx
      exact hcleanup ht hf hp _ _ (leaves_of_unwound hx)
    | next ht hf hp hc hl =>
      exact H _ _ (.closeNext ht hf hp hc) ((hcleanup ht hf hp).returned hc) _ _ hl

theorem drops {count : Nat} (h : m.thread.Guarded S) (ho : m.Orderly)
    (hL : ∀ id, Activation.Loses ⟨n, .drops count, m⟩ id → S id)
    (H : ∀ S' : Nat → Prop, (∀ id, S id → S' id) → ∀ l b, Enters ⟨n, .drops count, m⟩ l b →
      b.machine.thread.Guarded S' → b.Ends (Thread.Guarded S')) :
    Activation.Ends (Thread.Guarded S) ⟨n, .drops count, m⟩ := by
  cases count with
  | zero => exact Ends.pure () h
  | succ count =>
    show (dropGuards (Job.run n) (count + 1)).Ends _ m
    match hh : m.thread.held with
    | [] | [] :: _ => exact .of_run (dropGuards_none count (by rw [hh]; rfl)) (.pure () h)
    | (g :: own) :: outer =>
      have hreleased : (m.withHeld (own :: outer)).thread.Guarded fun i => S i ∨ i = g.frame :=
        h.released fun x hx => by rw [hh] at hx; simpa using hx
      refine .of_run (dropGuards_held count hh) (.onExit ?_ fun o m₁ hl h₁ => ?_)
      · have e := Enters.drop n count hh
        exact .of_run (run_leaveFrame _ _ _)
          (closing ho hL e (H _ (fun _ => .inl) _ _ e hreleased))
      · exact H S (fun _ hs => hs) _ _ (.dropNext hh hl) h₁

theorem session {status : Int32} {body : Block} (h : m.thread.Guarded S) (ho : m.Orderly)
    (hL : ∀ id, Activation.Loses ⟨n, .session status body, m⟩ id → S id)
    (H : ∀ S' : Nat → Prop, (∀ id, S id → S' id) → ∀ l b,
      Enters ⟨n, .session status body, m⟩ l b → b.machine.thread.Guarded S' →
        b.Ends (Thread.Guarded S')) :
    Activation.Ends (Thread.Guarded S) ⟨n, .session status body, m⟩ := by
  refine Ends.bind (.of_storage (run_runBody _ m _) h fun ht => .of_caught fun r m₁ hr => ?_)
    fun _ _ _ h => .pure _ h
  obtain ⟨o, hl, -⟩ := leaves_of_threadBody hr
  have e := Enters.session n status body ht
  have hbody := H _ (fun _ => .inl) _ _ e h.sessionEntered _ _ hl
  have hclosed : ((Job.run n) (.closeAbove m.innermostId)).Ends (Thread.Guarded S) m₁ := by
    intro o' m₂ hc
    refine (H _ (fun _ => .inl) _ _ (.sessionLeft ht hl) hbody _ _ hc).without fun hid => ?_
    obtain ⟨_, hr, rfl⟩ | ⟨t, hu, rfl⟩ := Leaves.cases hc
    · have htidy := (tidy_of_enters e).trans (Tidy.primitives.obeys _ _ _ _ _ hl)
      obtain ⟨f, hf, hfid⟩ := List.mem_map.1 (openIds_of_closeAbove ho htidy hr _ hid)
      have hfresh := ho.frames.fresh f hf
      omega
    · exact hL _ (Activation.GivesAway.session hl hu).loses
  refine .bind hclosed fun _ _ _ h => .bind ?_ fun _ _ _ h => ?_
  · unfold closeSession
    split
    · exact .modify h
    · exact .pure _ h
  · unfold statusOf
    split
    · exact .pure _ h
    · exact .pure _ h
    · exact .unwind _ h

theorem scope {body : Block} (h : m.thread.Guarded S) (ho : m.Orderly)
    (hL : ∀ id, Activation.Loses ⟨n, .stmt (.scope body), m⟩ id → S id)
    (H : ∀ S' : Nat → Prop, (∀ id, S id → S' id) → ∀ l b, Enters ⟨n, .stmt (.scope body), m⟩ l b →
      b.machine.thread.Guarded S' → b.Ends (Thread.Guarded S')) :
    Activation.Ends (Thread.Guarded S) ⟨n, .stmt (.scope body), m⟩ := by
  refine Ends.of_storage (run_scope _ m _) h fun ht => .of_exit fun o m₁ hl => ?_
  have hbody := H _ (fun _ => .inl) _ _ (.scope n body ht) h.opened _ _ hl
  have e := Enters.scopeLeft ht hl
  exact .of_run (run_leaveFrame _ _ _) (closing ho hL e (H _ (fun _ => .inl) _ _ e hbody))

theorem leave {name : String} (h : m.thread.Guarded S) (ho : m.Orderly)
    (hL : ∀ id, Activation.Loses ⟨n, .stmt (.leave name), m⟩ id → S id)
    (H : ∀ S' : Nat → Prop, (∀ id, S id → S' id) → ∀ l b, Enters ⟨n, .stmt (.leave name), m⟩ l b →
      b.machine.thread.Guarded S' → b.Ends (Thread.Guarded S')) :
    Activation.Ends (Thread.Guarded S) ⟨n, .stmt (.leave name), m⟩ := by
  cases hp : pickHeld name m.thread.held with
  | none =>
    have hrun : (releaseGuard name).run m = ⟨.returned none, m⟩ := by rw [run_releaseGuard, hp]
    exact Ends.of_run (run_bind_returned hrun) (.pure _ h)
  | some picked =>
    obtain ⟨g, held⟩ := picked
    have hrun : (releaseGuard name).run m = ⟨.returned (some g), m.withHeld held⟩ := by
      rw [run_releaseGuard, hp]
    have hreleased := h.released fun x => mem_flatten_of_pickHeld hp
    have e := Enters.leave n hp
    refine Ends.of_run (run_bind_returned hrun) (.of_run (run_leaveFrame _ _ _) ?_)
    exact closing ho hL e (H _ (fun _ => .inl) _ _ e hreleased)

theorem recover {value : String} {body : Block} (h : m.thread.Guarded S)
    (hroot : m.thread.frames.frames = [] → S m.thread.frames.nextId)
    (H : ∀ l b, Enters ⟨n, .stmt (.recover value body), m⟩ l b → b.machine.thread.Guarded S →
      b.Ends (Thread.Guarded S)) :
    Activation.Ends (Thread.Guarded S) ⟨n, .stmt (.recover value body), m⟩ := by
  refine Ends.bind (.of_storage (run_recover m _) h fun ht => ?_) fun r _ _ h => by
    split <;> exact .note _ h
  have hbody := H _ _ (.recover n value body ht) (h.recoveryEntered hroot)
  refine .onExit (.bind (.catchUnwind hbody) fun r _ _ h => ?_) fun _ _ _ h => h.endRecovery
  split
  · exact .pure _ h
  · split
    · exact .bind (.note _ h) fun _ _ _ h => .pure _ h
    · exact .unwind _ h
  · exact .unwind _ h

end

end Thread.Guarded

/-- However a piece is left, each open frame is held by a guard, or is one of those for which `S`
holds, if this was so before and `S` holds of the frames that are given away in its course. -/
theorem Activation.guarded {S : Nat → Prop} {a : Activation} (ho : a.machine.Orderly)
    (hL : ∀ id, a.Loses id → S id) (h : a.machine.thread.Guarded S) :
    a.Ends (Thread.Guarded S) := by
  induction a using Activation.induction generalizing S with
  | h a ih =>
    have H : ∀ S' : Nat → Prop, (∀ id, S id → S' id) → ∀ l b, Enters a l b →
        b.machine.thread.Guarded S' → b.Ends (Thread.Guarded S') := fun S' hS l b e =>
      ih l b e ((tidy_of_enters e).orderly ho) fun id hid => hS id (hL id (hid.of_call e))
    have H₁ := H S fun _ hs => hs
    by_cases hT : a.task.HandlesFrames
    · obtain ⟨n, T, m⟩ := a
      have hroot : ∀ {s}, T = .stmt s → s.Roots m.thread → m.thread.frames.frames = [] →
          S m.thread.frames.nextId := by
        rintro s rfl hs hf
        exact hL _ (GivesAway.root n hs hf).loses
      have hlate : ∀ {c : Cleanup}, (m.startedLate c).thread.Guarded S := fun {c} =>
        h.of_eq (by unfold Machine.startedLate Machine.starting; split <;> rfl)
          (held_starting c _)
      cases T with
      | job j =>
        cases j with
        | block ss => exact .block h H₁
        | close id => exact .close h H₁
        | closeAbove base => exact hT.elim
        | walk code => exact hT.elim
      | drops count => exact .drops h ho hL H
      | session status body => exact .session h ho hL H
      | stmt s =>
        cases s with
        | scope body => exact .scope h ho hL H
        | leave name => exact .leave h ho hL H
        | enter name => exact h.enter
        | leak name => exact h.leak fun g held hp => hL _ (GivesAway.leaked n hp).loses
        | initThread => exact h.declareThread fun hi => hroot rfl (.initThread hi)
        | defer body =>
          exact Thread.Guarded.defer h (hroot rfl (.defer body _)) fun ht =>
            H₁ _ _ (.deferLate n body ht) hlate
        | deferWith a body =>
          have hdefer := Thread.Guarded.defer h (hroot rfl (.deferWith a body _)) fun ht =>
            H₁ _ _ (.deferWithLate n a body ht) hlate
          exact Ends.bind hdefer fun _ _ _ h => .note _ h
        | recover value body => exact .recover h (hroot rfl (.recover value body _)) H₁
        | init settings =>
          cases settings with
          | none => exact hT.elim
          | some settings =>
            have hthread := Machine.thread_settingsApplied settings m
            refine Ends.bind ?_ fun _ _ _ h => .note _ h
            refine .of_run (run_bind_returned (run_applySettings settings m)) ?_
            refine .bind (Thread.Guarded.declareThread (hthread ▸ h) ?_) fun _ _ _ h => .note _ h
            rw [hthread]
            exact fun hi => hroot rfl (.init settings hi)
        | _ => exact hT.elim
      | _ => exact hT.elim
    · exact Activation.ends_of_calls Thread.Guarded.isLocal hT h (fun _ _ => trivial) H₁

end NonlocalExit
