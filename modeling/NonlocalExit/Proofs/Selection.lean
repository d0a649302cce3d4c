import NonlocalExit.Proofs.Values

/-!
# Which clause is run

A clause waits for the values of one type, built-in or declared, or for any value.  Types may share
a tag, which clauses compare first; a clause whose tag agrees and whose type does not is passed over
with a warning.

`first_clause_runs`: of the clauses of a try block the first one that waits for the value that comes
from the body is run, with that value, and no other one; before it starts one warning is written for
every clause before it that shares the tag of the value.
-/

namespace NonlocalExit

open Effect TryBlock

section

variable [Declarations]

/-- An exception is made from one value only. -/
theorem Exception.of_inj {v w : Value} (h : Exception.of v = .of w) : v = w := by
  have hdown := Exception.downcast?_of v v.type
  rw [h, downcast?_of, if_pos rfl] at hdown
  split at hdown
  · exact (Option.some.inj hdown).symm
  · cases hdown

namespace Trigger

/-- Whether a clause waits for a value. -/
def takes (v : Value) : Trigger → Bool
  | .typed t => t = v.type
  | .any => true
  | .completion => false

/-- Whether a clause waits for values of another type with the same tag. -/
def clashes (v : Value) : Trigger → Bool
  | .typed t => t.tag = v.type.tag ∧ t ≠ v.type
  | .any | .completion => false

theorem takes_typed {v : Value} {t : ThrowType} : (typed t).takes v = true ↔ t = v.type :=
  decide_eq_true_iff

theorem clashes_typed {v : Value} {t : ThrowType} :
    (typed t).clashes v = true ↔ t.tag = v.type.tag ∧ t ≠ v.type := decide_eq_true_iff

/-- How a clause starts that is given a value: a clause for one type gets the value, a clause for
any gets the exception made from it. -/
inductive Starts (v : Value) : Trigger → Event → Prop
  | typed : Starts v (.typed v.type) (.caught v)
  | any : Starts v .any (.caughtAny (.of v))

end Trigger

namespace TryBlock

/-- The warnings of the clauses before the first one that waits for a value, oldest first. -/
def clashWarnings (v : Value) (clauses : List (Trigger × Block)) : List Entry :=
  ((clauses.takeWhile fun c => !c.1.takes v).filter fun c => c.1.clashes v).map
    fun _ => .log (.tagClash v.type.tag)

section

variable {v : Value} {trigger : Trigger} {b : Block} {clauses : List (Trigger × Block)}

/-- The clause that matches is the first one that waits for the value, whatever the tags are. -/
theorem firstMatch_eq_find? (v : Value) : ∀ clauses : List (Trigger × Block),
    firstMatch (.of v) clauses = clauses.find? fun c => c.1.takes v
  | [] => rfl
  | (.typed t, b) :: rest => by
    unfold firstMatch
    by_cases ht : t = v.type
    · have htakes : Trigger.takes v (Trigger.typed t, b).1 = true := Trigger.takes_typed.2 ht
      rw [if_pos ⟨congrArg ThrowType.tag ht.symm, ht.symm⟩, List.find?, htakes]
    · have htakes : Trigger.takes v (Trigger.typed t, b).1 = false := decide_eq_false ht
      rw [if_neg fun h => ht h.2.symm, firstMatch_eq_find? v rest, List.find?, htakes]
  | (.any, _) :: _ => rfl
  | (.completion, _) :: rest => firstMatch_eq_find? v rest

/-- A clause that is found is not skipped: it starts, with the value. -/
theorem exists_start (h : (clauses.find? fun c => c.1.takes v) = some (trigger, b)) :
    ∃ start, start? (.of v) trigger = some start ∧ trigger.Starts v start := by
  have htakes : trigger.takes v = true :=
    List.find?_some (p := fun c : Trigger × Block => c.1.takes v) h
  cases trigger with
  | typed t =>
    obtain rfl : t = v.type := of_decide_eq_true htakes
    have hdown := Exception.downcast?_of v v.type
    rw [if_pos rfl] at hdown
    exact ⟨.caught v, congrArg (Option.map Event.caught) hdown, .typed⟩
  | any => exact ⟨_, rfl, .any⟩
  | completion => cases htakes

/-! ### Warnings -/

theorem clashWarnings_taken {rest : List (Trigger × Block)} (h : trigger.takes v = true) :
    clashWarnings v ((trigger, b) :: rest) = [] := by simp [clashWarnings, h]

theorem clashWarnings_clashing {rest : List (Trigger × Block)} (ht : trigger.takes v = false)
    (hc : trigger.clashes v = true) : clashWarnings v ((trigger, b) :: rest) =
      .log (.tagClash v.type.tag) :: clashWarnings v rest := by simp [clashWarnings, ht, hc]

theorem clashWarnings_other {rest : List (Trigger × Block)} (ht : trigger.takes v = false)
    (hc : trigger.clashes v = false) :
    clashWarnings v ((trigger, b) :: rest) = clashWarnings v rest := by simp [clashWarnings, ht, hc]

/-- The search for a clause writes one warning for every clause that it passes over though its tag
agrees, and nothing else. -/
theorem deeds_passedOver (v : Value) : ∀ (clauses : List (Trigger × Block)) (m : Machine),
    (m.deeds (m.passedOver (.of v) clauses)).reverse = clashWarnings v clauses
  | [], m => congrArg List.reverse (Machine.deeds_of_journal_eq (m := m) rfl)
  | (.typed t, b) :: rest, m => by
    show (m.deeds (if v.type.tag = t.tag then if v.type = t then m else
      (m.note (.log (.tagClash v.type.tag))).passedOver (.of v) rest
        else m.passedOver (.of v) rest)).reverse = _
    by_cases ht : t = v.type
    · subst ht
      have htakes : (Trigger.typed v.type).takes v = true := Trigger.takes_typed.2 rfl
      rw [if_pos rfl, if_pos rfl, clashWarnings_taken htakes, Machine.deeds_of_journal_eq rfl]
      rfl
    · have htakes : (Trigger.typed t).takes v = false := decide_eq_false ht
      by_cases htag : t.tag = v.type.tag
      · have hwarned : Adds m (m.note (.log (.tagClash v.type.tag))) := .note _ _
        rw [if_pos htag.symm, if_neg fun h => ht h.symm,
          clashWarnings_clashing htakes (Trigger.clashes_typed.2 ⟨htag, ht⟩),
          Machine.deeds_trans hwarned (Spawns.oblivious.passedOver _ _ _).toAdds,
          Machine.deeds_note, List.reverse_append, deeds_passedOver v rest]
        rfl
      · have hclashes : (Trigger.typed t).clashes v = false := decide_eq_false fun h => htag h.1
        rw [if_neg fun h => htag h.symm, deeds_passedOver v rest,
          clashWarnings_other htakes hclashes]
  | (.any, _) :: _, m => congrArg List.reverse (Machine.deeds_of_journal_eq (m := m) rfl)
  | (.completion, _) :: rest, m => deeds_passedOver v rest m

end

/-! ### What is run -/

/-- What a try block does about a value that has come from its body, when `m₁` is the machine at the
end of the body, by the first clause that waits for the value. -/
inductive Answers (n : Nat) (body : Block) (clauses : List (Trigger × Block)) (m : Machine)
    (v : Value) (m₁ : Machine) : Option (Trigger × Block) → Prop
  /-- No clause is run, and the exception stays in hand. -/
  | none {m₂} (hlegs : ∀ l ∈ legs n body clauses m, l.move ≠ (.catching, .unexpected))
    (hstage : (clauseStage (Job.run n) body clauses m.thread.current m.thread.depth).run
      (m.tryEntered clauses) = ⟨.returned (some (.of v)), m₂⟩)
    (hdeeds : (m₁.deeds m₂).reverse =
      clashWarnings v clauses ++ [.log (.stage m.thread.depth .catching .finishing)]) :
    Answers n body clauses m v m₁ none
  /-- The clause is run, and no other one. -/
  | some {trigger b start m₂} (hstart : trigger.Starts v start)
    (honce : ∃ last, Leg.Once (.catching, .unexpected) (legs n body clauses m)
      ⟨n, .job (.block b), m₂⟩ last)
    (hdeeds : (m₁.deeds m₂).reverse = clashWarnings v clauses ++
      [.log (.stage m.thread.depth .catching .unexpected), .event start]) :
    Answers n body clauses m v m₁ (some (trigger, b))

section

variable {n : Nat} {body : Block} {clauses : List (Trigger × Block)} {m m₁ : Machine} {v : Value}

theorem deeds_searched (link : Nat) (v : Value) (clauses : List (Trigger × Block))
    (before after : Stage) (m : Machine) :
    (m.deeds ((m.passedOver (.of v) clauses).stage link before after)).reverse =
      clashWarnings v clauses ++ [.log (.stage link before after)] := by
  unfold Machine.stage
  rw [Machine.deeds_trans (Spawns.oblivious.passedOver _ _ _).toAdds (.note _ _),
    Machine.deeds_note, List.reverse_append, deeds_passedOver]
  rfl

theorem deeds_clauseEntered (link : Nat) (v : Value) (clauses : List (Trigger × Block))
    (start : Event) (m : Machine) :
    (m.deeds (m.clauseEntered link (.of v) clauses start)).reverse =
      clashWarnings v clauses ++ [.log (.stage link .catching .unexpected), .event start] := by
  have hsearched : Adds m ((m.passedOver (.of v) clauses).stage link .catching .unexpected) :=
    (Spawns.oblivious.passedOver _ _ _).toAdds.trans (.note _ _)
  unfold Machine.clauseEntered
  rw [Machine.deeds_trans hsearched (.note _ _), Machine.deeds_note, List.reverse_append,
    deeds_searched, List.append_assoc]
  rfl

/-- After an exception has come from the body the ways on which a clause is run are those of the
clause that matches it. -/
theorem legs_of_escaped {e : Exception}
    (hb : (bodyStage (Job.run n) body m.thread.depth).run (m.tryEntered clauses) =
      ⟨.returned (some e), m₁⟩) :
    ∃ later, legs n body clauses m =
        bodyLegs n body clauses m ++ (matchLegs n clauses m.thread.depth e m₁ ++ later) ∧
      ∀ l ∈ later, l.move ≠ (.catching, .unexpected) := by
  let searched := ((runCatches (Job.run n) (catchesOf (Job.run n) clauses) m.thread.current
    m.thread.depth (some e)).run m₁).next fun _ _ =>
      [(⟨.catching, .finishing, []⟩ : Leg Activation)]
  let ended := ((clauseStage (Job.run n) body clauses m.thread.current m.thread.depth).run
    (m.tryEntered clauses)).next fun _ => lastLegs n clauses m.thread.depth
  refine ⟨searched ++ ended, ?_, fun l hl => ?_⟩
  · unfold legs firstLegs
    rw [hb, ← List.append_assoc (matchLegs ..), ← List.append_assoc (bodyLegs ..)]
    rfl
  · obtain hl | hl := List.mem_append.1 hl
    · obtain ⟨_, _, _, hl⟩ := Outcome.mem_next hl
      rw [List.mem_singleton.1 hl]
      nofun
    · obtain ⟨_, _, _, hl⟩ := Outcome.mem_next hl
      obtain h | h | h := move_of_mem_lastLegs hl <;> rw [h] <;> nofun

theorem bodyLegs_ne_catching {l : Leg Activation} (hl : l ∈ bodyLegs n body clauses m) :
    l.move ≠ (.catching, .unexpected) := by
  obtain h | h := move_of_mem_bodyLegs hl <;> rw [h] <;> nofun

/-- The clause that answers is the first one that waits for the value. -/
theorem answers (hb : (bodyStage (Job.run n) body m.thread.depth).run (m.tryEntered clauses) =
      ⟨.returned (some (.of v)), m₁⟩) :
    Answers n body clauses m v m₁ (clauses.find? fun c => c.1.takes v) := by
  obtain ⟨later, hlegs, hlater⟩ := legs_of_escaped hb
  have hmatch := firstMatch_eq_find? v clauses
  cases hf : clauses.find? fun c => c.1.takes v with
  | none =>
    rw [hf] at hmatch
    refine .none (fun l hl => ?_) (clauseStage_unmatched _ hb hmatch) ?_
    · rw [hlegs, matchLegs, hmatch] at hl
      obtain hl | hl := List.mem_append.1 hl
      · exact bodyLegs_ne_catching hl
      · exact hlater l hl
    · exact deeds_searched _ _ _ _ _ _
  | some c =>
    obtain ⟨trigger, b⟩ := c
    rw [hf] at hmatch
    obtain ⟨start, hs, hstart⟩ := exists_start hf
    have hback : (Stage.unexpected, Stage.catching) ≠ (Stage.catching, Stage.unexpected) := by
      decide
    obtain ⟨last, honce, _⟩ := Leg.once_around hback (fun _ hl => bodyLegs_ne_catching hl) hlater
    rw [matchLegs_eq hmatch hs] at hlegs
    exact .some hstart ⟨_, hlegs ▸ honce⟩ (deeds_clauseEntered _ _ _ _ _)

end

end TryBlock

/-- Wherever a try block is run, an exception that comes from its body was made from a value, and it
is handled by the first clause that waits for that value, after one warning for every clause before
that shares the tag of the value; if there is no such clause, none is run. -/
theorem first_clause_runs {K : List (Label × Activation)} {n : Nat} {body : Block}
    {clauses : List (Trigger × Block)} {m : Machine}
    (h : Stack K ⟨n, .stmt (.attempt body clauses), m⟩) :
    Course (Stage.passage (selected n body clauses m) (completes clauses))
      ⟨n, .stmt (.attempt body clauses), m⟩ (legs n body clauses m) (sent n body clauses m) ∧
    ∀ e m₁, (bodyStage (Job.run n) body m.thread.depth).run (m.tryEntered clauses) =
        ⟨.returned (some e), m₁⟩ →
      ∃ v, e = .of v ∧
        Answers n body clauses m v m₁ (clauses.find? fun c => c.1.takes v) := by
  refine ⟨course_attempt n body clauses m, fun e m₁ hb => ?_⟩
  obtain ⟨t, m₂, hx, _, he, _⟩ := taken_of_bodyStage hb
  have hbody := holdsValue_of_enters (.attempt n body clauses m) h.holdsValue
  obtain ⟨v, rfl⟩ := holdsValue_of_leaves hbody (leaves_of_unwound hx) e he
  exact ⟨v, rfl, answers hb⟩

end

/-- Clauses for two types that share a tag, and one for any value. -/
def clashingClauses : List (Trigger × Block) :=
  [(.typed .clashA, []), (.typed .clashB, [.state]), (.any, [])]

/-- The clause for the type of the value is run, after a warning of the one before it. -/
theorem first_clause_runs_clashing : ∃ (last : List (Leg Activation)) (m₁ m₂ : Machine),
    Leg.Once (.catching, .unexpected)
      (legs 8 [.throw (.clashB 7)] clashingClauses (Machine.initial.withHeld [[]]))
      ⟨8, .job (.block [.state]), m₂⟩ last ∧
    (m₁.deeds m₂).reverse = [.log (.tagClash ThrowType.clashB.tag),
      .log (.stage 0 .catching .unexpected), .event (.caught (.clashB 7))] := by
  have hstart : Activation.IsStart
      ⟨9, .job (.block [.attempt [.throw (.clashB 7)] clashingClauses]), .initial⟩ :=
    .body rfl Nat.zero_lt_one
  obtain ⟨v, hv, hanswers⟩ :=
    (first_clause_runs (((Stack.start hstart).call (.block _ _ _)).call (.first _ _ _ _))).2 _ _ rfl
  obtain rfl := Exception.of_inj hv.symm
  cases hanswers with
  | some hstart honce hdeeds =>
    cases hstart
    obtain ⟨last, honce⟩ := honce
    exact ⟨last, _, _, honce, hdeeds⟩

end NonlocalExit
