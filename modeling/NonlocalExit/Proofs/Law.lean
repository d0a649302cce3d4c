import NonlocalExit.Effect

/-!
# Laws that effects obey

A law relates the machine on which an effect is started to the machine on which it is left, and
says which unwind, if any, leaves it.  An effect that halts is not left, so a law asks nothing of
it.

`leaves_bind`, `leaves_onExit`, `leaves_catchUnwind` and `leaves_capture` say how an effect that is
built from others is left; `Obeys.bind` and its companions carry laws through the same constructs.
A law that does not look at the unwind, `Law.ofRel`, passes through all of them.
-/

namespace NonlocalExit

variable [Declarations]

/-- How an outcome is left: by returning, or by an unwind; a halt is not left. -/
inductive Outcome.Leaves {α : Type} : Outcome α → Option Transfer → Machine → Prop
  | returned (a : α) (m : Machine) : Leaves ⟨.returned a, m⟩ none m
  | unwound (t : Transfer) (m : Machine) : Leaves ⟨.unwound t, m⟩ (some t) m

theorem Outcome.Leaves.unique {α : Type} {out : Outcome α} {o o' : Option Transfer}
    {m m' : Machine} (h : out.Leaves o m) (h' : out.Leaves o' m') : o = o' ∧ m = m' := by
  cases h <;> cases h' <;> exact ⟨rfl, rfl⟩

/-- What may hold between the machine before, the unwind that leaves an effect, and the machine
after. -/
abbrev Law := Machine → Option Transfer → Machine → Prop

/-- A law that the effect that does nothing obeys, and that two effects in sequence obey if both
of them do. -/
class Law.Composable (R : Law) : Prop where
  refl : ∀ m, R m none m
  trans : ∀ {m m₁ m₂ o}, R m none m₁ → R m₁ o m₂ → R m o m₂

/-- The law that only looks at the machines. -/
def Law.ofRel (r : Machine → Machine → Prop) : Law := fun m _ m' => r m m'

/-- A relation between machines that is reflexive and transitive. -/
class Composes (r : Machine → Machine → Prop) : Prop where
  refl : ∀ m, r m m
  trans : ∀ {m m₁ m₂}, r m m₁ → r m₁ m₂ → r m m₂

instance {r : Machine → Machine → Prop} [Composes r] : (Law.ofRel r).Composable where
  refl m := Composes.refl (r := r) m
  trans h h' := Composes.trans (r := r) h h'

namespace Effect

variable {α β : Type} {m m' : Machine} {o : Option Transfer}

/-! ## How effects are left -/

theorem leaves_pure {a : α} :
    ((pure a : Effect α).run m).Leaves o m' ↔ o = none ∧ m' = m := by
  rw [run_pure]
  constructor
  · rintro ⟨⟩; exact ⟨rfl, rfl⟩
  · rintro ⟨rfl, rfl⟩; exact .returned _ _

theorem leaves_unwind {t : Transfer} :
    ((unwind t : Effect α).run m).Leaves o m' ↔ o = some t ∧ m' = m := by
  rw [run_unwind]
  constructor
  · rintro ⟨⟩; exact ⟨rfl, rfl⟩
  · rintro ⟨rfl, rfl⟩; exact .unwound _ _

theorem not_leaves_halt {h : Halt} : ¬((halt h : Effect α).run m).Leaves o m' := by
  rw [run_halt]; rintro ⟨⟩

theorem leaves_modify {f : Machine → Machine} :
    ((modify f).run m).Leaves o m' ↔ o = none ∧ m' = f m := by
  rw [run_modify]
  constructor
  · rintro ⟨⟩; exact ⟨rfl, rfl⟩
  · rintro ⟨rfl, rfl⟩; exact .returned _ _

/-- An effect that is left returned a value or was unwound. -/
theorem Leaves.cases {x : Effect α} (h : (x.run m).Leaves o m') :
    (∃ a, x.run m = ⟨.returned a, m'⟩ ∧ o = none) ∨
      ∃ t, x.run m = ⟨.unwound t, m'⟩ ∧ o = some t := by
  generalize x.run m = out at h
  cases h with
  | returned a => exact .inl ⟨a, rfl, rfl⟩
  | unwound t => exact .inr ⟨t, rfl, rfl⟩

theorem leaves_of_returned {x : Effect α} {a : α} (h : x.run m = ⟨.returned a, m'⟩) :
    (x.run m).Leaves none m' := by rw [h]; exact .returned _ _

theorem leaves_of_unwound {x : Effect α} {t : Transfer} (h : x.run m = ⟨.unwound t, m'⟩) :
    (x.run m).Leaves (some t) m' := by rw [h]; exact .unwound _ _

theorem returned_of_leaves {x : Effect α} (h : (x.run m).Leaves none m') :
    ∃ a, x.run m = ⟨.returned a, m'⟩ := by
  obtain ⟨a, ha, _⟩ | ⟨t, _, ht⟩ := Leaves.cases h
  · exact ⟨a, ha⟩
  · cases ht

theorem unwound_of_leaves {x : Effect α} {t : Transfer} (h : (x.run m).Leaves (some t) m') :
    x.run m = ⟨.unwound t, m'⟩ := by
  obtain ⟨a, _, ha⟩ | ⟨t, h, ht⟩ := Leaves.cases h
  · cases ha
  · cases ht; exact h

theorem leaves_bind {x : Effect α} {f : α → Effect β} :
    ((x >>= f).run m).Leaves o m' ↔
      (∃ a m₁, x.run m = ⟨.returned a, m₁⟩ ∧ ((f a).run m₁).Leaves o m') ∨
        ∃ t, x.run m = ⟨.unwound t, m'⟩ ∧ o = some t := by
  rw [run_bind]
  constructor
  · intro h
    rcases hx : x.run m with ⟨a | t | h', m₁⟩
    · rw [hx] at h
      exact .inl ⟨a, m₁, rfl, h⟩
    · rw [hx] at h
      cases h
      exact .inr ⟨t, rfl, rfl⟩
    · rw [hx] at h
      cases h
  · rintro (⟨a, m₁, hx, hf⟩ | ⟨t, hx, rfl⟩)
    · rw [hx]; exact hf
    · rw [hx]; exact .unwound _ _

theorem run_abortOnUnwind (x : Effect α) (m : Machine) :
    x.abortOnUnwind.run m = match x.run m with
      | ⟨.returned a, m'⟩ => ⟨.returned a, m'⟩
      | ⟨.unwound _, m'⟩ => ⟨.halted .aborted, m'⟩
      | ⟨.halted h, m'⟩ => ⟨.halted h, m'⟩ := rfl

theorem leaves_abortOnUnwind {x : Effect α} :
    (x.abortOnUnwind.run m).Leaves o m' ↔ (x.run m).Leaves none m' ∧ o = none := by
  rw [run_abortOnUnwind]
  obtain ⟨a | t | h, m₁⟩ := x.run m
  · constructor
    · rintro ⟨⟩; exact ⟨.returned _ _, rfl⟩
    · rintro ⟨⟨⟩, rfl⟩; exact .returned _ _
  · constructor
    · rintro ⟨⟩
    · rintro ⟨⟨⟩, _⟩
  · constructor
    · rintro ⟨⟩
    · rintro ⟨⟨⟩, _⟩

theorem run_onExit (x : Effect α) (y : Effect Unit) (m : Machine) :
    (onExit x y).run m = match x.run m with
      | ⟨.returned a, m'⟩ => (y >>= fun _ => (pure a : Effect α)).run m'
      | ⟨.unwound t, m'⟩ => (y.abortOnUnwind >>= fun _ => (unwind t : Effect α)).run m'
      | ⟨.halted h, m'⟩ => ⟨.halted h, m'⟩ := rfl

/-- What is run on exit is run in any case, and only its returning lets the unwind go on. -/
theorem leaves_onExit {x : Effect α} {y : Effect Unit} :
    ((onExit x y).run m).Leaves o m' ↔
      (∃ a m₁, x.run m = ⟨.returned a, m₁⟩ ∧ (y.run m₁).Leaves o m') ∨
        ∃ t m₁, x.run m = ⟨.unwound t, m₁⟩ ∧ (y.run m₁).Leaves none m' ∧ o = some t := by
  rw [run_onExit]
  obtain ⟨a | t | h, m₁⟩ := x.run m
  · simp only [leaves_bind, leaves_pure, Outcome.mk.injEq, Ending.returned.injEq, reduceCtorEq,
      false_and, exists_false, or_false]
    constructor
    · rintro (⟨b, m₂, hy, rfl, rfl⟩ | ⟨t, hy, rfl⟩)
      · exact ⟨a, m₁, ⟨rfl, rfl⟩, leaves_of_returned hy⟩
      · exact ⟨a, m₁, ⟨rfl, rfl⟩, leaves_of_unwound hy⟩
    · rintro ⟨_, _, ⟨rfl, rfl⟩, hy⟩
      obtain ⟨b, hb, rfl⟩ | ⟨t, ht, rfl⟩ := Leaves.cases hy
      · exact .inl ⟨b, m', hb, rfl, rfl⟩
      · exact .inr ⟨t, ht, rfl⟩
  · simp only [leaves_bind, leaves_unwind, Outcome.mk.injEq, Ending.unwound.injEq, reduceCtorEq,
      false_and, exists_false, false_or]
    constructor
    · rintro (⟨_, m₂, hy, rfl, rfl⟩ | ⟨_, hy, _⟩)
      · exact ⟨t, m₁, ⟨rfl, rfl⟩, (leaves_abortOnUnwind.1 (leaves_of_returned hy)).1, rfl⟩
      · cases (leaves_abortOnUnwind.1 (leaves_of_unwound hy)).2
    · rintro ⟨_, _, ⟨rfl, rfl⟩, hy, rfl⟩
      obtain ⟨a, ha⟩ := returned_of_leaves (leaves_abortOnUnwind.2 ⟨hy, rfl⟩)
      exact .inl ⟨a, m', ha, rfl, rfl⟩
  · simp only [Outcome.mk.injEq, reduceCtorEq, false_and, exists_false, or_self, iff_false]
    rintro ⟨⟩

theorem run_catchUnwind (x : Effect α) :
    (catchUnwind x).run m = match x.run m with
      | ⟨.returned a, m'⟩ => ⟨.returned (.ok a), m'⟩
      | ⟨.unwound t, m'⟩ => ⟨.returned (.error t), m'⟩
      | ⟨.halted h, m'⟩ => ⟨.halted h, m'⟩ := rfl

theorem run_catchUnwind_eq_returned {x : Effect α} {r : Except Transfer α} :
    (catchUnwind x).run m = ⟨.returned r, m'⟩ ↔
      (∃ a, x.run m = ⟨.returned a, m'⟩ ∧ r = .ok a) ∨
        ∃ t, x.run m = ⟨.unwound t, m'⟩ ∧ r = .error t := by
  rw [run_catchUnwind]
  obtain ⟨a | t | h, m₁⟩ := x.run m
  · grind
  · grind
  · grind

theorem leaves_catchUnwind {x : Effect α} :
    ((catchUnwind x).run m).Leaves o m' ↔ (∃ o', (x.run m).Leaves o' m') ∧ o = none := by
  rw [run_catchUnwind]
  obtain ⟨a | t | h, m₁⟩ := x.run m
  · constructor
    · rintro ⟨⟩; exact ⟨⟨_, .returned _ _⟩, rfl⟩
    · rintro ⟨⟨_, ⟨⟩⟩, rfl⟩; exact .returned _ _
  · constructor
    · rintro ⟨⟩; exact ⟨⟨_, .unwound _ _⟩, rfl⟩
    · rintro ⟨⟨_, ⟨⟩⟩, rfl⟩; exact .returned _ _
  · constructor
    · rintro ⟨⟩
    · rintro ⟨⟨_, ⟨⟩⟩, _⟩

/-- A capture stops the unwinds of exceptions and no others. -/
theorem run_capture (x : Effect Unit) :
    (capture x).run m = match x.run m with
      | ⟨.returned _, m'⟩ => ⟨.returned none, m'⟩
      | ⟨.unwound t, m'⟩ =>
        match t.escape? with
        | some e => ⟨.returned (some e), m'⟩
        | none => ⟨.unwound t, m'⟩
      | ⟨.halted h, m'⟩ => ⟨.halted h, m'⟩ := by
  unfold capture
  rw [run_bind, run_catchUnwind]
  obtain ⟨a | t | h, m₁⟩ := x.run m
  · rfl
  · cases h : t.escape? <;> simp [h]
  · rfl

theorem leaves_capture {x : Effect Unit} :
    ((capture x).run m).Leaves o m' ↔
      ((x.run m).Leaves none m' ∧ o = none) ∨
        ∃ t, x.run m = ⟨.unwound t, m'⟩ ∧ o = if t.escape?.isSome then none else some t := by
  rw [run_capture]
  obtain ⟨a | t | h, m₁⟩ := x.run m
  · constructor
    · rintro ⟨⟩; exact .inl ⟨.returned _ _, rfl⟩
    · rintro (⟨⟨⟩, rfl⟩ | ⟨t, ⟨⟩, _⟩); exact .returned _ _
  · constructor
    · intro h
      cases ht : t.escape? <;> simp only [ht] at h <;> cases h <;> exact .inr ⟨t, rfl, by simp [ht]⟩
    · rintro (⟨⟨⟩, rfl⟩ | ⟨_, ⟨⟩, rfl⟩)
      cases ht : t.escape? with
      | none => simpa [ht] using Outcome.Leaves.unwound t m'
      | some e => simpa [ht] using Outcome.Leaves.returned (some e) m'
  · constructor
    · rintro ⟨⟩
    · rintro (⟨⟨⟩, _⟩ | ⟨_, ⟨⟩, _⟩)

/-! ## Laws -/

/-- Whenever the effect is left, the law holds between the machines before and after. -/
def Obeys (R : Law) (x : Effect α) : Prop := ∀ m o m', (x.run m).Leaves o m' → R m o m'

namespace Obeys

variable {R : Law}

theorem pure [R.Composable] (a : α) : Obeys R (pure a) := by
  intro m o m' h
  obtain ⟨rfl, rfl⟩ := leaves_pure.1 h
  exact Law.Composable.refl _

theorem bind [R.Composable] {x : Effect α} {f : α → Effect β} (hx : Obeys R x)
    (hf : ∀ a, Obeys R (f a)) : Obeys R (x >>= f) := by
  intro m o m' h
  obtain ⟨a, m₁, ha, h⟩ | ⟨t, ht, rfl⟩ := leaves_bind.1 h
  · exact Law.Composable.trans (hx _ _ _ (leaves_of_returned ha)) (hf a _ _ _ h)
  · exact hx _ _ _ (leaves_of_unwound ht)

theorem machine [R.Composable] : Obeys R machine := by
  intro m o m' h
  cases h
  exact Law.Composable.refl _

theorem modify {f : Machine → Machine} (h : ∀ m, R m none (f m)) : Obeys R (modify f) := by
  intro m o m' hl
  obtain ⟨rfl, rfl⟩ := leaves_modify.1 hl
  exact h m

theorem halt {h : Halt} : Obeys R (halt h : Effect α) := fun _ _ _ hl => (not_leaves_halt hl).elim

/-! ### Laws that do not look at the unwind -/

variable {r : Machine → Machine → Prop} [Composes r]

theorem unwind (t : Transfer) : Obeys (.ofRel r) (unwind t : Effect α) := by
  intro m o m' h
  obtain ⟨rfl, rfl⟩ := leaves_unwind.1 h
  exact Composes.refl _

theorem onExit {x : Effect α} {y : Effect Unit} (hx : Obeys (.ofRel r) x)
    (hy : Obeys (.ofRel r) y) : Obeys (.ofRel r) (onExit x y) := by
  intro m o m' hl
  show r m m'
  obtain ⟨a, m₁, ha, h⟩ | ⟨t, m₁, ht, h, rfl⟩ := leaves_onExit.1 hl
  · exact Composes.trans (hx _ _ _ (leaves_of_returned ha)) (hy _ _ _ h)
  · exact Composes.trans (hx _ _ _ (leaves_of_unwound ht)) (hy _ _ _ h)

omit [Composes r] in
theorem catchUnwind {x : Effect α} (hx : Obeys (.ofRel r) x) :
    Obeys (.ofRel r) (catchUnwind x) := by
  intro m o m' hl
  show r m m'
  obtain ⟨⟨o', h⟩, rfl⟩ := leaves_catchUnwind.1 hl
  exact hx _ _ _ h

omit [Composes r] in
theorem capture {x : Effect Unit} (hx : Obeys (.ofRel r) x) : Obeys (.ofRel r) (capture x) := by
  intro m o m' hl
  show r m m'
  obtain ⟨h, rfl⟩ | ⟨t, ht, _⟩ := leaves_capture.1 hl
  · exact hx _ _ _ h
  · exact hx _ _ _ (leaves_of_unwound ht)

end Obeys

end Effect

end NonlocalExit
