import NonlocalExit.Proofs.Guards
import NonlocalExit.Proofs.Marks
import NonlocalExit.Proofs.Resuming

/-!
# A panic on its way through the calls

`unwound_of_path`: when a panic has closed all frames above the one that it aims at, what is left
to be done at each call on its way finds nothing to close, so the unwind comes through to the call
of `recover` whose frame that is.
-/

namespace NonlocalExit

/-- Whether a call lets a panic with some token through. -/
def Label.Admits (target token : Nat) : Label → Prop
  | foreign | unwinding => False
  | recover r _ _ => r.frame ≠ target ∧ r.token ≠ token
  | _ => True

theorem Label.Admits.passes {target token : Nat} {l : Label} (h : l.Admits target token)
    (code : ErrorCode) : l.Passes (.panicking code token) := by
  cases l with
  | foreign => exact h.elim
  | unwinding => exact h.elim
  | recover r previous outer =>
    intro code' he
    cases he
    exact h.2 rfl
  | session base owner => exact nofun
  | attempt link => rfl
  | clause link => rfl
  | hook kind link => rfl
  | _ => trivial

variable [Declarations]

open Effect Machine

/-! ## What calls keep -/

/-- Whether a piece is run as a part of a block. -/
def Task.InBlock : Task → Prop
  | .rest _ | .stmt _ | .drops _ => True
  | _ => False

/-- Whether a piece is run inside blocks whose guards are of frames from a bound on, all but the
outermost ones. -/
structure Activation.Within (bound depth : Nat) (a : Activation) : Prop where
  holds : a.machine.HoldsAbove bound depth
  inside : a.task.InBlock → depth < a.machine.thread.held.length

section

variable {a b : Activation} {l : Label}

theorem fuel_of_enters (h : Enters a l b) : b.fuel ≤ a.fuel := by
  cases h <;> first | exact Nat.le_refl _ | exact Nat.le_succ _

theorem tidy_of_enters (h : Enters a l b) : Tidy a.machine b.machine := by
  obtain ⟨m, ho, hm⟩ := Tidy.primitives.visits h
  refine Tidy.trans ?_ hm
  cases ho with
  | same => exact .refl _
  | block => exact .withHeld _ _
  | recover => exact .recoveryEntered _

theorem marked_of_enters (h : Enters a l b) (ha : a.machine.Marked) : b.machine.Marked := by
  obtain ⟨m, ho, hm⟩ := Marking.primitives.visits h
  refine hm.marked ?_
  cases ho with
  | same => exact ha
  | block => exact ha.of_same (.withHeld _ _) rfl rfl
  | recover ht => exact ha.recoveryEntered ht

/-- A call of `recover` is the one that is added to those under way; no other call adds one. -/
theorem recovering_of_enters (h : Enters a l b) :
    (∃ r previous outer, l = .recover r previous outer ∧
      b.machine.thread.recovering = r :: a.machine.thread.recovering ∧
      r = ⟨a.machine.shared.nextToken, a.machine.rootId⟩) ∨
    (∀ r previous outer, l ≠ .recover r previous outer) ∧
      b.machine.thread.recovering = a.machine.thread.recovering := by
  obtain ⟨m, ho, hm⟩ := Marking.primitives.visits h
  cases ho with
  | same hl => exact .inr ⟨hl, hm.recovering⟩
  | block hl => exact .inr ⟨hl, hm.recovering⟩
  | recover ht => exact .inl ⟨_, _, _, rfl, hm.recovering, rfl⟩

theorem within_of_enters {bound depth : Nat} (h : Enters a l b)
    (hb : a.machine.thread.torn = false → bound ≤ a.machine.thread.frames.nextId)
    (ha : a.Within bound depth) :
    b.Within bound depth := by
  have P := Holding.primitives
  refine ⟨?_, ?_⟩
  · obtain ⟨m, ho, hm⟩ := P.visits h
    refine hm.above bound depth ?_ ?_
    · cases ho with
      | same => exact hb
      | block => exact hb
      | recover ht => exact fun _ => Nat.le_trans (hb ht) (Tidy.recoveryEntered _).nextId
    · cases ho with
      | same => exact ha.holds
      | block => exact ha.holds.push
      | recover =>
        refine ha.holds.of_held ?_
        show a.machine.tokenTaken.rooted.thread.held = a.machine.thread.held
        unfold Machine.rooted
        split <;> rfl
  -- Only a block and what is run in it come to pieces that are run as parts of a block.
  · have hlen : ∀ {m : Machine}, depth < m.thread.held.length → m.thread.held ≠ [] := by
      intro m h hnil
      rw [hnil] at h
      cases h
    cases h with
    | block n ss m => exact fun _ => Nat.lt_succ_of_le ha.holds.depth_le
    | blockLeft h =>
      intro _
      have hm := (P.governs _).performAll _ _ _ _ h
      exact Nat.lt_of_lt_of_eq (Nat.lt_succ_of_le ha.holds.depth_le) (hm.length nofun).symm
    | first n s ss m => exact fun _ => ha.inside trivial
    | next h =>
      intro _
      have hm := (P.governs _).perform _ _ _ _ (leaves_of_returned h)
      exact Nat.lt_of_lt_of_eq (ha.inside trivial) (hm.length (hlen (ha.inside trivial))).symm
    | dropNext hh h =>
      intro _
      have hm := P.obeys _ _ _ _ _ h
      have hin : depth < _ := ha.inside trivial
      rw [hh] at hin
      exact Nat.lt_of_lt_of_eq hin (hm.length nofun).symm
    | _ => exact False.elim

end

namespace Path

variable {a b : Activation} {K : List (Label × Activation)}

theorem tidy (h : Path a K b) : Tidy a.machine b.machine := by
  induction h with
  | here => exact .refl _
  | call _ e ih => exact ih.trans (tidy_of_enters e)

theorem marked (h : Path a K b) (ha : a.machine.Marked) : b.machine.Marked := by
  induction h with
  | here => exact ha
  | call _ e ih => exact marked_of_enters e ih

theorem within {bound depth : Nat} (h : Path a K b)
    (hb : a.machine.thread.torn = false → bound ≤ a.machine.thread.frames.nextId)
    (ha : a.Within bound depth) : b.Within bound depth := by
  induction h with
  | here => exact ha
  | call h e ih =>
    exact within_of_enters e (fun ht =>
      Nat.le_trans (hb (h.tidy.torn.symm.trans ht)) h.tidy.nextId) ih

theorem recovering_subset (h : Path a K b) :
    ∀ r ∈ a.machine.thread.recovering, r ∈ b.machine.thread.recovering := by
  induction h with
  | here => exact fun _ hr => hr
  | call _ e ih =>
    intro r hr
    obtain ⟨s, _, _, _, he, _⟩ | ⟨_, he⟩ := recovering_of_enters e
    · exact he ▸ List.mem_cons_of_mem _ (ih r hr)
    · exact he ▸ ih r hr

/-- What is reached from a piece is the piece itself, or is reached from one that it calls. -/
theorem first (h : Path a K b) : b = a ∨ ∃ l c K', Enters a l c ∧ Path c K' b := by
  induction h with
  | here => exact .inl rfl
  | call _ e ih =>
    rcases ih with rfl | ⟨l, c, K', e', h⟩
    · exact .inr ⟨_, _, [], e, .here⟩
    · exact .inr ⟨l, c, _, e', h.call e⟩

/-- A call is on the way to what is reached through it. -/
theorem split {l : Label} {x : Activation} {K₁ K₂ : List (Label × Activation)}
    (h : Path a (K₁ ++ (l, x) :: K₂) b) : ∃ c, Path a K₂ x ∧ Enters x l c ∧ Path c K₁ b := by
  induction K₁ generalizing b with
  | nil =>
    cases h with
    | call h e => exact ⟨b, h, e, .here⟩
  | cons y K₁ ih =>
    cases h with
    | call h e =>
      obtain ⟨c, h₁, e₁, h₂⟩ := ih h
      exact ⟨c, h₁, e₁, h₂.call e⟩

theorem join {l : Label} {c x : Activation} {K₁ K₂ : List (Label × Activation)} (h : Path a K₂ x)
    (e : Enters x l c) (h' : Path c K₁ b) : Path a (K₁ ++ (l, x) :: K₂) b := by
  induction h' with
  | here => exact h.call e
  | call _ e' ih => exact ih.call e'

/-- The calls of `recover` that are under way are on the path. -/
theorem call_of_recovering (h : Path a K b) {r : Recovery}
    (hr : r ∈ b.machine.thread.recovering) (ha : r ∉ a.machine.thread.recovering) :
    ∃ K₁ previous outer x K₂, K = K₁ ++ (.recover r previous outer, x) :: K₂ := by
  induction h with
  | here => exact (ha hr).elim
  | call h e ih =>
    obtain ⟨s, previous, outer, rfl, he, _⟩ | ⟨_, he⟩ := recovering_of_enters e
    · obtain rfl | hr := List.mem_cons.1 (he ▸ hr)
      · exact ⟨[], previous, outer, _, _, rfl⟩
      · obtain ⟨K₁, previous, outer, x, K₂, rfl⟩ := ih hr
        exact ⟨_ :: K₁, previous, outer, x, K₂, rfl⟩
    · obtain ⟨K₁, previous, outer, x, K₂, rfl⟩ := ih (he ▸ hr)
      exact ⟨_ :: K₁, previous, outer, x, K₂, rfl⟩

end Path

/-- Wherever a thread comes to, its frames are in order and carry the marks of the recoveries. -/
theorem Reaches.marked {a : Activation} {K : List (Label × Activation)} (h : Reaches K a) :
    a.machine.Marked := by
  obtain ⟨root, hroot, hpath⟩ := h
  exact hpath.marked (Marked.of_isRoot hroot).1

/-! ## Exits that find nothing to close -/

/-- Whether nothing that is open up to a frame is closed when a call is left. -/
def Label.IsIdle (target : Nat) (m : Machine) : Label → Prop
  | block | dropping _ => ∀ g ∈ m.thread.held.headD [], target < g.frame
  | scope id => target < id
  | recover r _ _ => target < r.frame
  | session base _ => base.any (target ≤ ·)
  | _ => True

/-- Whether the frames of a thread on live storage are the same. -/
structure Machine.SameFrames (m m' : Machine) : Prop where
  frames : m'.thread.frames.frames = m.thread.frames.frames
  torn : m'.thread.torn = m.thread.torn

theorem Machine.SameFrames.trans {m m₁ m' : Machine} (h : m.SameFrames m₁) (h' : m₁.SameFrames m') :
    m.SameFrames m' := ⟨h'.frames.trans h.frames, h'.torn.trans h.torn⟩

/-- Whether the frames that are to be closed when a call is left are closed already. -/
def Label.FindsClosed (m : Machine) : Label → Prop
  | block | dropping _ => ∀ g ∈ m.thread.held.headD [], g.frame ∉ m.openIds
  | scope id => id ∉ m.openIds
  | recover r _ _ => r.frame ∉ m.openIds
  | session base _ => ∀ id ∈ m.openIds, base.any (id ≤ ·)
  | _ => True

theorem Label.IsIdle.findsClosed {target : Nat} {m : Machine} {l : Label} (h : l.IsIdle target m)
    (hopen : ∀ id ∈ m.openIds, id ≤ target) : l.FindsClosed m := by
  have hout : ∀ id, target < id → id ∉ m.openIds := fun id hlt hid =>
    Nat.lt_irrefl _ (Nat.lt_of_lt_of_le hlt (hopen id hid))
  cases l with
  | block | dropping => exact fun g hg => hout _ (h g hg)
  | scope | recover => exact hout _ h
  | session base owner =>
    intro id hid
    obtain ⟨i, rfl, hti⟩ := (Option.any_eq_true _ _).1 (show base.any (target ≤ ·) = true from h)
    exact decide_eq_true (Nat.le_trans (hopen id hid) (of_decide_eq_true hti))
  | _ => trivial

section

variable {k : Nat} {m : Machine}

theorem find?_of_closed {id : Nat} (hid : id ∉ m.openIds) :
    Frame.find? id m.thread.frames.frames = none :=
  Frame.find?_eq_none.2 fun _ hf he => hid (he ▸ List.mem_map_of_mem hf)

theorem close_absent (ht : m.thread.torn = false) {id : Nat} (hid : id ∉ m.openIds) :
    (Job.run (k + 1) (.close id)).run m = ⟨.returned (), m⟩ :=
  closeStep_absent ht (find?_of_closed hid)

theorem leaveFrame_absent (ht : m.thread.torn = false) {id : Nat} (hid : id ∉ m.openIds) :
    (leaveFrame (Job.run (k + 1)) id).run m = ⟨.returned (), m.leaving id⟩ :=
  close_absent (m := m.leaving id) ht hid

theorem dropGuards_absent (count : Nat) (ht : m.thread.torn = false)
    (hg : ∀ g ∈ m.thread.held.headD [], g.frame ∉ m.openIds) :
    ∃ m', (dropGuards (Job.run (k + 1)) count).run m = ⟨.returned (), m'⟩ ∧ m.SameFrames m' := by
  induction count generalizing m with
  | zero => exact ⟨m, rfl, rfl, rfl⟩
  | succ count ih =>
    rw [run_dropGuards_succ]
    split
    · rename_i g own outer hh
      rw [hh] at hg
      obtain ⟨m', hr, hs⟩ := ih (m := (m.withHeld (own :: outer)).leaving g.frame) ht
        fun x hx => hg x (List.mem_cons_of_mem _ hx)
      have hl := leaveFrame_absent (k := k) (m := m.withHeld (own :: outer)) ht
        (hg g List.mem_cons_self)
      exact ⟨m', run_onExit_returned hl hr, hs.frames, hs.torn⟩
    · exact ⟨m, rfl, rfl, rfl⟩

theorem closeAbove_absent {base : Option Nat} (ht : m.thread.torn = false)
    (hb : ∀ id ∈ m.openIds, base.any (id ≤ ·)) :
    (Job.run (k + 1) (.closeAbove base)).run m = ⟨.returned (), m⟩ :=
  closeAboveStep_done ht fun f hf => hb f.id (List.mem_map_of_mem (List.mem_of_mem_head? hf))

/-- Such an exit comes to its end, and all frames stay as they are. -/
theorem exit_closed {l : Label} (ht : m.thread.torn = false) (h : l.FindsClosed m) :
    ∃ m', (l.exit (Job.run (k + 1))).run m = ⟨.returned (), m'⟩ ∧ m.SameFrames m' := by
  cases l with
  | plain => exact ⟨m, rfl, rfl, rfl⟩
  | foreign => exact ⟨m, rfl, rfl, rfl⟩
  | unwinding => exact ⟨m, rfl, rfl, rfl⟩
  | leaving => exact ⟨_, rfl, rfl, rfl⟩
  | attempt link => exact ⟨_, rfl, rfl, rfl⟩
  | clause link => exact ⟨_, rfl, rfl, rfl⟩
  | block =>
    obtain ⟨m₁, hr, hs⟩ := dropGuards_absent (k := k) (m.thread.held.headD []).length ht h
    exact ⟨_, run_onExit_returned hr (run_popHeld m₁), hs.frames, hs.torn⟩
  | dropping count => exact dropGuards_absent count ht h
  | scope id => exact ⟨_, leaveFrame_absent ht h, rfl, rfl⟩
  | recover r previous outer =>
    refine ⟨(m.withMark r.frame previous).withRecovering outer, ?_, ?_, rfl⟩
    · show (endRecovery r.frame previous outer).run m = _
      rw [run_endRecovery, ht]
      rfl
    · exact Frame.update_eq_self fun f hf he => h (he ▸ List.mem_map_of_mem hf)
  | session base owner =>
    have hclose := closeAbove_absent (k := k) ht h
    cases owner with
    | false => exact ⟨_, run_bind_returned hclose, rfl, rfl⟩
    | true => exact ⟨_, run_bind_returned hclose, rfl, rfl⟩
  | hook kind link =>
    cases kind <;> exact ⟨_, rfl, rfl, rfl⟩

end

/-- A call on the way of a panic finds nothing to close when it is left. -/
theorem idle_of_enters {a b : Activation} {l : Label} {target depth : Nat} {o : Option Transfer}
    {m : Machine} (h : Enters a l b) (ha : a.Within (target + 1) depth)
    (hb : target < a.machine.thread.frames.nextId) (ho : a.machine.Orderly)
    (hopen : target ∈ a.machine.openIds)
    (hr : ∀ r previous outer, l = .recover r previous outer → r.frame ≠ target)
    (hm : b.run.Leaves o m) : l.IsIdle target m := by
  have hin := ho.le_innermostId hopen
  have hwithin := within_of_enters h (fun _ => hb) ha
  have hhold := Holding.primitives.obeys_run hm
  have habove := hhold.above _ _ (fun _ => Nat.le_trans hb (tidy_of_enters h).nextId)
    hwithin.holds
  cases h with
  | block n ss m =>
    have hlt := hwithin.inside trivial
    exact habove.head (Nat.lt_of_lt_of_eq hlt (hhold.length nofun).symm)
  | drop n count hh =>
    have hlt : depth < _ := ha.inside trivial
    rw [hh] at hlt
    exact habove.head (Nat.lt_of_lt_of_eq hlt (hhold.length nofun).symm)
  | scope n body ht => exact hb
  | session n status body ht => exact hin
  | recover n value body ht =>
    rename_i m'
    refine Nat.lt_of_le_of_ne ?_ (hr _ _ _ rfl).symm
    show target ≤ m'.rootId
    obtain ⟨i, hi, hle⟩ := (Option.any_eq_true _ _).1 hin
    rw [rootId_eq hi]
    exact of_decide_eq_true hle
  | blockLeft h => cases ‹Option Transfer› <;> trivial
  | dropNext hh h => cases ‹Option Transfer› <;> trivial
  | scopeLeft ht h => cases ‹Option Transfer› <;> trivial
  | _ => trivial

/-- A panic that has closed the frames above its aim comes through the calls on its way. -/
theorem unwound_of_path {a b : Activation} {K : List (Label × Activation)}
    {target token depth : Nat} {code : ErrorCode} {m : Machine} (h : Path a K b)
    (ha : a.Within (target + 1) depth) (hlt : target < a.machine.thread.frames.nextId)
    (ho : a.machine.Orderly) (hopen : target ∈ b.machine.openIds) (hk : 0 < b.fuel)
    (hK : ∀ x ∈ K, x.1.Admits target token)
    (hb : b.run = ⟨.unwound (.panicking code token), m⟩) (ht : m.thread.torn = false)
    (hm : ∀ id ∈ m.openIds, id ≤ target) :
    ∃ m', a.run = ⟨.unwound (.panicking code token), m'⟩ ∧ m.SameFrames m' ∧
      ∀ x ∈ K, ∃ m₁, x.2.run = ⟨.unwound (.panicking code token), m₁⟩ := by
  induction h generalizing m with
  | here => exact ⟨m, hb, ⟨rfl, rfl⟩, fun x hx => by cases hx⟩
  | call h e ih =>
    rename_i K b l c
    have hopen' : target ∈ b.machine.openIds := by
      rcases (tidy_of_enters e).novel _ hopen with hmem | hge
      · exact hmem
      · have := Nat.lt_of_lt_of_le hlt h.tidy.nextId
        omega
    have hk' : 0 < b.fuel := Nat.lt_of_lt_of_le hk (fuel_of_enters e)
    have hadmits := hK _ List.mem_cons_self
    have hidle : l.IsIdle target m := by
      refine idle_of_enters e (h.within (fun _ => hlt) ha) (Nat.lt_of_lt_of_le hlt h.tidy.nextId)
        (h.tidy.orderly ho) hopen' ?_ (leaves_of_unwound hb)
      rintro r previous outer rfl
      exact hadmits.1
    obtain ⟨k, hc⟩ : ∃ k, c.fuel = k + 1 := ⟨c.fuel - 1, by omega⟩
    obtain ⟨m₁, hexit, hs⟩ := exit_closed (k := k) ht (hidle.findsClosed hm)
    have hb₁ := unwound_of_enters e hb (hadmits.passes code) (hc ▸ hexit)
    have hK' : ∀ x ∈ K, x.1.Admits target token := fun x hx => hK x (List.mem_cons_of_mem _ hx)
    have hm₁ : ∀ id ∈ m₁.openIds, id ≤ target := by
      rw [show m₁.openIds = m.openIds from congrArg (List.map _) hs.frames]
      exact hm
    obtain ⟨m', ha', hs', hrest⟩ := ih hopen' hk' hK' hb₁ (hs.torn.trans ht) hm₁
    refine ⟨m', ha', hs.trans hs', fun x hx => ?_⟩
    obtain rfl | hx := List.mem_cons.1 hx
    · exact ⟨m₁, hb₁⟩
    · exact hrest x hx

end NonlocalExit
