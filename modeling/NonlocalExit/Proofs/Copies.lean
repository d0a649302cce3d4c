import NonlocalExit.Proofs.Selection

/-!
# Copies of an exception

An exception is copied wherever it goes: into the record, to a hook, to a clause, and back into the
record when a try block sends it on.  `copies_carry_raised_values`: each copy that a program comes
to was made from a value that was raised in its course, and an exception that was made from a value
gives that value at its own type and nothing at any other, whatever types are declared and whoever
asks: the query for a type, the reading of the value and the search for a clause agree.
-/

namespace NonlocalExit

open Effect TryBlock

section

variable [Declarations]

/-- Whether an exception is taken for one value, at the type of the value and at no other, by all
that look at its type: the reading of the value, the query for a type, and the search for a clause,
which passes over a clause for another type, with a warning if that type has the same tag. -/
structure Exception.Carries (e : Exception) (v : Value) : Prop where
  reading : ∀ t, e.downcast? t = if v.type = t then some v else none
  query : ∀ t, e.is t = (e.downcast? t).isSome
  search : ∀ (t : ThrowType) (c : Catch) (rest : List Catch) (m : Machine), c.type = some t →
    (select e (c :: rest)).run m = if e.is t then ⟨.returned (some c), m⟩ else
      (select e rest).run (if e.tag = t.tag then m.note (.log (.tagClash e.tag)) else m)

/-- The search for a clause takes a clause for a type just when the query for that type says yes,
whatever the exception was made from. -/
theorem TryBlock.run_select_typed {e : Exception} {t : ThrowType} {c : Catch}
    (rest : List Catch) (m : Machine) (hc : c.type = some t) :
    (select e (c :: rest)).run m = if e.is t then ⟨.returned (some c), m⟩ else
      (select e rest).run (if e.tag = t.tag then m.note (.log (.tagClash e.tag)) else m) := by
  rw [select, hc]
  by_cases htag : e.tag = t.tag
  · by_cases htype : e.type = t
    · have his : e.is t = true := by simp [Exception.is, htag, htype]
      simp only [htag, htype, his, ↓reduceIte]
      rfl
    · have his : e.is t = false := by simp [Exception.is, htype]
      simp only [htag, htype, his, Bool.false_eq_true, ↓reduceIte]
      rfl
  · have his : e.is t = false := by simp [Exception.is, htag]
    simp only [htag, his, Bool.false_eq_true, ↓reduceIte]

/-- The exception that is made from a value carries it. -/
theorem Exception.carries_of (v : Value) : (of v).Carries v where
  reading := downcast?_of v
  query t := by
    rw [is_of, downcast?_of]
    by_cases h : v.type = t <;> simp [h]
  search _ _ rest m hc := run_select_typed rest m hc

/-- Whether a value is raised in the course of a program. -/
def Program.Raised (w : Surroundings) (n : Nat) (p : Program) (v : Value) : Prop :=
  ∃ a, p.Course w n a ∧ a.Raises v

/-- A hook is given the exception that is in the record. -/
theorem exists_of_enters_hook {a b : Activation} {kind : HookKind} {link : Nat}
    (e : Enters a (.hook kind link) b) : ∃ (x : Exception) (m : Machine),
      a.machine.thread.current = some x ∧ b.machine = m.note (.event (.hook kind x)) := by
  generalize hl : Label.hook kind link = l at e
  cases e with
  | throwHook n hb hr he =>
    cases hl
    exact ⟨_, _, he, rfl⟩
  | unhandledHook n hb he =>
    cases hl
    exact ⟨_, _, he, rfl⟩
  | unexpectedHook n hb he =>
    cases hl
    exact ⟨_, _, he, rfl⟩
  | @blockLeft n ss o | @dropNext n count g own outer o | @scopeLeft n body o =>
    cases o <;> cases hl
  | _ => cases hl

/-- What a try block sends on is the exception that came from its body. -/
theorem TryBlock.current_of_sent {n : Nat} {body : Block} {clauses : List (Trigger × Block)}
    {m m₁ : Machine} {e : Exception} {c : Activation}
    (hb : (bodyStage (Job.run n) body m.thread.depth).run (m.tryEntered clauses) =
      ⟨.returned (some e), m₁⟩)
    (hc : c ∈ sent n body clauses m) : c.machine.thread.current = some e := by
  obtain ⟨pending, m₂, hstages, hc⟩ := Outcome.mem_next hc
  cases pending with
  | none => cases hc
  | some e' =>
    obtain rfl := List.mem_singleton.1 hc
    obtain ⟨t, m₃, hx, ht, he⟩ := taken_of_stages hstages
    cases hb.symm.trans (bodyStage_taken _ hx ht he)
    rfl

section

variable {w : Surroundings} {n : Nat} {p : Program} {b : Activation}

theorem Program.Course.of_raised (h : p.Course w n b) :
    b.machine.thread.Holds fun e => ∃ v, p.Raised w n v ∧ e = .of v :=
  h.holds fun c v hc hv => ⟨v, ⟨c, hc, hv⟩, rfl⟩

theorem Program.Course.of_raised_of_leaves {o : Option Transfer} {m : Machine} (h : p.Course w n b)
    (hl : b.run.Leaves o m) : m.thread.Holds fun e => ∃ v, p.Raised w n v ∧ e = .of v :=
  (h.raisesOnly fun c v hc hv => ⟨v, ⟨c, hc, hv⟩, rfl⟩).ends h.of_raised _ _ hl

end

/-- The exception made from a value gives that value at its own type and nothing at any other, to
all that ask, and every copy that a program comes to is such an exception, made from a value that
was raised in the course of the program: what is in the record where a piece starts and where it is
left; what a hook is given, which is what is in the record; and what comes from the body of a try
block.  The first clause that waits for the value starts with the value or with the exception made
from it, and what the try block sends on is that exception again. -/
theorem copies_carry_raised_values (w : Surroundings) (n : Nat) (p : Program) :
    (∀ v, (Exception.of v).Carries v) ∧
    (∀ b e, p.Course w n b → b.machine.thread.current = some e →
      ∃ v, p.Raised w n v ∧ e = .of v) ∧
    (∀ b o m e, p.Course w n b → b.run.Leaves o m → m.thread.current = some e →
      ∃ v, p.Raised w n v ∧ e = .of v) ∧
    (∀ a kind link b, p.Course w n a → Enters a (.hook kind link) b →
      ∃ (v : Value) (m : Machine), p.Raised w n v ∧ a.machine.thread.current = some (.of v) ∧
        b.machine = m.note (.event (.hook kind (.of v)))) ∧
    ∀ k body clauses m e m₁, p.Course w n ⟨k, .stmt (.attempt body clauses), m⟩ →
      (bodyStage (Job.run k) body m.thread.depth).run (m.tryEntered clauses) =
        ⟨.returned (some e), m₁⟩ →
      ∃ v, p.Raised w n v ∧ e = .of v ∧
        (∀ trigger b, clauses.find? (fun c => c.1.takes v) = some (trigger, b) →
          ∃ start, trigger.Starts v start ∧
            Enters ⟨k, .stmt (.attempt body clauses), m⟩ (.clause m.thread.depth)
              ⟨k, .job (.block b), m₁.clauseEntered m.thread.depth (.of v) clauses start⟩) ∧
        ∀ c ∈ sent k body clauses m, c.machine.thread.current = some (.of v) := by
  refine ⟨Exception.carries_of, fun b e hb => hb.of_raised e,
    fun b o m e hb hl => hb.of_raised_of_leaves hl e, ?_, ?_⟩
  · intro a kind link b ha hhook
    obtain ⟨x, m, hx, hb⟩ := exists_of_enters_hook hhook
    obtain ⟨v, hv, rfl⟩ := ha.of_raised x hx
    exact ⟨v, m, hv, hx, hb⟩
  · intro k body clauses m e m₁ ha hbody
    obtain ⟨t, m₂, hx, ht, he, hm⟩ := taken_of_bodyStage hbody
    have hstarted := ha.trans (.later .here (.call (.attempt k body clauses m)))
    obtain ⟨v, hv, rfl⟩ := hstarted.of_raised_of_leaves (leaves_of_unwound hx) e he
    refine ⟨v, hv, rfl, fun trigger b hfind => ?_, fun c hc => current_of_sent hbody hc⟩
    obtain ⟨start, hs, hstart⟩ := exists_start hfind
    exact ⟨start, hstart, .clause hbody ((firstMatch_eq_find? v clauses).trans hfind) hs⟩

end

/-- A float that is not a number, and that arithmetic would alter. -/
def signalling : Value := .double 0x7FF0000000000001

/-- Such a float is thrown inside two try blocks while a throw hook is set.  A clause of the inner
one throws it again, and the outer one has a clause for a type of the same size before the one for
its own. -/
def relayingProgram : Program where
  mode := .process
  status := 0
  body := [.setHook .onThrow (some []), .attempt
    [.attempt [.throw signalling] [(.typed .clashA, []), (.any, [.rethrow])]]
    [(.typed .long, []), (.typed .double, [])]]

theorem copies_carry_raised_values_relayed :
    (∃ (a b : Activation) (link : Nat) (m : Machine), relayingProgram.Course .bare 20 a ∧
      Enters a (.hook .onThrow link) b ∧
      b.machine = m.note (.event (.hook .onThrow (.of signalling)))) ∧
    (∃ (k : Nat) (body : Block) (m m₁ : Machine) (clauses : List (Trigger × Block)),
      relayingProgram.Course .bare 20 ⟨k, .stmt (.attempt body clauses), m⟩ ∧
      clauses = [(.typed .long, []), (.typed .double, [])] ∧
      Enters ⟨k, .stmt (.attempt body clauses), m⟩ (.clause m.thread.depth) ⟨k, .job (.block []),
        m₁.clauseEntered m.thread.depth (.of signalling) clauses (.caught signalling)⟩) ∧
    (Exception.of signalling).downcast? .long = none := by
  obtain ⟨hcarries, -, -, hhooks, hclauses⟩ := copies_carry_raised_values .bare 20 relayingProgram
  have hblock := Activation.Course.here.later (.call (.block 19 relayingProgram.body .initial))
  have htry := (hblock.later (.call (.next rfl))).later (.call (.first _ _ _ _))
  have hthrow := (((((htry.later (.call (.attempt _ _ _ _))).later (.call (.block _ _ _))).later
    (.call (.first _ _ _ _))).later (.call (.attempt _ _ _ _))).later (.call (.block _ _ _))).later
    (.call (.first _ _ _ _))
  have hcourse : relayingProgram.Course .bare 20 _ := ⟨_, .process rfl, htry⟩
  have hdispatch : relayingProgram.Course .bare 20 _ :=
    ⟨_, .process rfl, hthrow.later (.call (.throw _ _ _))⟩
  refine ⟨?_, ?_, (hcarries _).reading _⟩
  · obtain ⟨v, m, -, hv, hm⟩ := hhooks _ _ _ _ hdispatch (.throwHook _ rfl rfl rfl)
    obtain rfl := Exception.of_inj (Option.some.inj hv)
    exact ⟨_, _, _, m, hdispatch, .throwHook _ rfl rfl rfl, hm⟩
  · obtain ⟨v, -, hv, hstarts, -⟩ := hclauses _ _ _ _ _ _ hcourse rfl
    obtain rfl := Exception.of_inj hv.symm
    obtain ⟨start, hstart, hentered⟩ := hstarts _ _ rfl
    cases hstart
    exact ⟨_, _, _, _, _, hcourse, rfl, hentered⟩

end NonlocalExit
