import NonlocalExit.Proofs.Course
import NonlocalExit.Proofs.Endings
import NonlocalExit.Proofs.ThrowHooks

/-!
# What try blocks write down about their stages

A try block writes down every way from one stage to another, with the level outside it.  The lines
of one thread are nested words: the lines of a try block are those of its own ways in their order,
and between them stand the lines of the pieces that it runs on these ways, one level further inside.

`Reading.logs` is followed by every run, so it is also true of what a halt cuts short.
`stages_form_words` says so of whole programs, and of every try block which ways its lines are
about.
-/

namespace NonlocalExit

open Effect

/-- A line about a way from one stage to another. -/
structure StageLine where
  link : Nat
  before : Stage
  after : Stage
  deriving DecidableEq, Repr

/-! ## Nested words -/

namespace Leg

/-- The line about a way, and what is written on it. -/
def lines (link : Nat) (l : Leg StageLine) : List StageLine := ⟨link, l.before, l.after⟩ :: l.inside

end Leg

/-- Whether some moves are all those of a try block, or are cut after one on which something may be
run. -/
def Stage.IsPassage (moves : List (Stage × Stage)) : Prop :=
  ∃ selected declared, moves = passage selected declared ∨
    moves <+: passage selected declared ∧ ∃ first last, moves = first ++ [last] ∧
      last ∈ Leg.calling

/-- The words that are put together from those of try blocks, from a level on.  Between the lines of
a try block stand words of the levels inside it, and only where it runs something. -/
inductive Nested : Nat → List StageLine → Prop
  | nil {d : Nat} : Nested d []
  | attempt {d k : Nat} {ls : List (Leg StageLine)} {w : List StageLine} (hk : d ≤ k)
    (hp : Stage.IsPassage (ls.map Leg.move))
    (hc : ∀ l ∈ ls, l.inside ≠ [] → l.move ∈ Leg.calling)
    (hi : ∀ l ∈ ls, Nested (k + 1) l.inside) (hw : Nested d w) :
    Nested d (ls.flatMap (Leg.lines k) ++ w)

namespace Nested

variable {d d' : Nat} {u w : List StageLine}

theorem append (hu : Nested d u) (hw : Nested d w) : Nested d (u ++ w) := by
  induction hu with
  | nil => exact hw
  | attempt hk hp hc hi _ _ ih =>
    rw [List.append_assoc]
    exact .attempt hk hp hc hi (ih hw)

/-- A word of the inner levels is one of the outer levels. -/
theorem mono (hd : d ≤ d') (h : Nested d' w) : Nested d w := by
  induction h with
  | nil => exact .nil
  | attempt hk hp hc hi _ _ ih => exact .attempt (Nat.le_trans hd hk) hp hc hi (ih hd)

theorem flatMap {α : Type} {f : α → List StageLine} :
    ∀ {xs : List α}, (∀ x ∈ xs, Nested d (f x)) → Nested d (xs.flatMap f)
  | [], _ => .nil
  | x :: xs, h => by
    rw [List.flatMap_cons]
    exact (h x List.mem_cons_self).append (flatMap fun y hy => h y (List.mem_cons_of_mem _ hy))

end Nested

section

variable [Declarations]

/-! ## What has been written between two machines -/

/-- The way that a line is about. -/
def Entry.stageLine? : Entry → Option StageLine
  | .log (.stage link before after) => some ⟨link, before, after⟩
  | _ => none

theorem Entry.stageLine?_eq_none {e : Entry} (h : e.isStage = false) : e.stageLine? = none := by
  unfold Entry.isStage at h
  split at h
  · cases h
  · rename_i hne
    unfold Entry.stageLine?
    split
    · exact (hne _ _ _ rfl).elim
    · rfl

/-- What a thread has written about stages on some lines of a journal, oldest first. -/
def stageLines (thread : Nat) (lines : List JournalLine) : List StageLine :=
  ((entriesOf thread lines).filterMap Entry.stageLine?).reverse

theorem stageLines_append (k : Nat) (new old : List JournalLine) :
    stageLines k (new ++ old) = stageLines k old ++ stageLines k new := by
  unfold stageLines
  rw [entriesOf_append, List.filterMap_append, List.reverse_append]

namespace Machine

/-- Whether the journal has only been added to, and threads have only been started. -/
structure Older (m m' : Machine) : Prop where
  journal : m.shared.journal <:+ m'.shared.journal
  nextThread : m.shared.nextThread ≤ m'.shared.nextThread

/-- What a thread has written about stages between two machines. -/
def stagesOf (k : Nat) (m m' : Machine) : List StageLine :=
  stageLines k (m'.shared.journal.take (m'.shared.journal.length - m.shared.journal.length))

variable {m m₁ m' : Machine} {k : Nat}

theorem stagesOf_of_journal (k : Nat) (new : List JournalLine)
    (h : m'.shared.journal = new ++ m.shared.journal) : m.stagesOf k m' = stageLines k new := by
  unfold stagesOf
  rw [h, List.length_append, Nat.add_sub_cancel, List.take_left]

theorem stagesOf_of_journal_eq (h : m'.shared.journal = m.shared.journal) :
    m.stagesOf k m' = [] := stagesOf_of_journal k [] h

theorem stagesOf_note (k : Nat) (e : Entry) (m : Machine) :
    m.stagesOf k (m.note e) = if k = m.thread.number then e.stageLine?.toList else [] := by
  rw [stagesOf_of_journal k [⟨m.thread.number, e⟩] rfl]
  unfold stageLines entriesOf
  by_cases hk : k = m.thread.number
  · simp only [List.filterMap_cons, List.filterMap_nil, hk, ↓reduceIte]
    cases e.stageLine? <;> rfl
  · simp only [List.filterMap_cons, List.filterMap_nil, hk, Ne.symm hk, ↓reduceIte]
    rfl

theorem stagesOf_stage (k link : Nat) (before after : Stage) (m : Machine) :
    m.stagesOf k (m.stage link before after) =
      if k = m.thread.number then [⟨link, before, after⟩] else [] := stagesOf_note _ _ _

namespace Older

theorem trans (h : m.Older m₁) (h' : m₁.Older m') : m.Older m' :=
  ⟨h.journal.trans h'.journal, Nat.le_trans h.nextThread h'.nextThread⟩

theorem note (e : Entry) (m : Machine) : m.Older (m.note e) :=
  ⟨List.suffix_cons _ _, Nat.le_refl _⟩

theorem stagesOf_trans (k : Nat) (h : m.Older m₁) (h' : m₁.Older m') :
    m.stagesOf k m' = m.stagesOf k m₁ ++ m₁.stagesOf k m' := by
  obtain ⟨new, hj⟩ := h.journal
  obtain ⟨new', hj'⟩ := h'.journal
  rw [stagesOf_of_journal k _ hj.symm, stagesOf_of_journal k _ hj'.symm, ← stageLines_append]
  refine stagesOf_of_journal k _ ?_
  rw [← hj', ← hj, List.append_assoc]

end Older

namespace Idle

theorem older (h : m.Idle m') : m.Older m' := by
  obtain ⟨es, _, hs⟩ := h.shared
  exact ⟨⟨_, (congrArg Shared.journal hs).symm⟩, Nat.le_of_eq (congrArg Shared.nextThread hs).symm⟩

theorem stagesOf (k : Nat) (h : m.Idle m') : m.stagesOf k m' = [] := by
  obtain ⟨es, hes, hs⟩ := h.shared
  rw [stagesOf_of_journal k _ (congrArg Shared.journal hs)]
  unfold stageLines
  rw [List.reverse_eq_nil_iff, List.filterMap_eq_nil_iff]
  intro e he
  obtain ⟨l, hl, hle⟩ := List.mem_filterMap.1 he
  obtain ⟨e', he', rfl⟩ := List.mem_map.1 hl
  split at hle
  · obtain rfl := Option.some.inj hle
    exact Entry.stageLine?_eq_none (hes _ he')
  · cases hle

end Idle

end Machine

/-- What a thread writes about stages while a piece is run. -/
def Activation.stagesOf (k : Nat) (c : Activation) : List StageLine :=
  c.machine.stagesOf k c.run.machine

/-- A way with what a thread writes on it. -/
def Leg.stagesOf (k : Nat) (l : Leg Activation) : Leg StageLine :=
  ⟨l.before, l.after, l.inside.flatMap (Activation.stagesOf k)⟩

section

variable {thread link : Nat} {m m' : Machine} {ls : List (Leg Activation)} {cs : List Activation}

theorem Runs.stagesOf (k : Nat) (h : Runs m cs m')
    (hc : ∀ c ∈ cs, c.machine.Older c.run.machine) :
    m.Older m' ∧ m.stagesOf k m' = cs.flatMap (Activation.stagesOf k) := by
  induction h with
  | nil h => exact ⟨h.older, h.stagesOf k⟩
  | cons h _ ih =>
    rename_i m c cs m' _
    obtain ⟨holder, hlines⟩ := ih fun c' hc' => hc c' (List.mem_cons_of_mem _ hc')
    have hcall := hc c List.mem_cons_self
    refine ⟨(h.older.trans hcall).trans holder, ?_⟩
    rw [(h.older.trans hcall).stagesOf_trans k holder, h.older.stagesOf_trans k hcall,
      h.stagesOf k, hlines]
    rfl

/-- What is written on some ways: the lines about them, and what is written by the pieces that are
run there. -/
theorem Goes.stagesOf (k : Nat) (h : Goes thread link m ls m')
    (hc : ∀ l ∈ ls, ∀ c ∈ l.inside, c.machine.Older c.run.machine) :
    m.Older m' ∧ m.stagesOf k m' =
      if k = thread then ls.flatMap fun l => (l.stagesOf k).lines link
      else ls.flatMap fun l => (l.stagesOf k).inside := by
  induction h with
  | nil h =>
    refine ⟨h.older, ?_⟩
    rw [h.stagesOf k]
    split <;> rfl
  | cons h hn hr _ ih =>
    rename_i m m₁ m₂ l ls m' _
    obtain ⟨holder, hlines⟩ := ih fun l' hl' => hc l' (List.mem_cons_of_mem _ hl')
    obtain ⟨hrun, hinside⟩ := hr.stagesOf k (hc l List.mem_cons_self)
    have hstage : m₁.Older (m₁.stage link l.before l.after) := .note _ _
    refine ⟨((h.older.trans hstage).trans hrun).trans holder, ?_⟩
    rw [((h.older.trans hstage).trans hrun).stagesOf_trans k holder,
      (h.older.trans hstage).stagesOf_trans k hrun, h.older.stagesOf_trans k hstage, h.stagesOf k,
      Machine.stagesOf_stage, hinside, hlines, hn]
    split <;> rfl

end

/-! ## Every run writes nested words -/

namespace Machine

/-- The level from which on a thread writes: that of the current thread, and the outermost one of a
thread that is started later. -/
def levelOf (k : Nat) (m : Machine) : Nat := if k = m.thread.number then m.thread.depth else 0

/-- Whether every thread has written a nested word between two machines, and threads that waited
have written nothing. -/
structure Logs (m m' : Machine) : Prop extends Older m m' where
  waiting : ∀ k, k ≠ m.thread.number → k < m.shared.nextThread → m.stagesOf k m' = []
  nested : m.thread.number < m.shared.nextThread → ∀ k, Nested (m.levelOf k) (m.stagesOf k m')

/-- Whether the same thread goes on, on the same level. -/
structure GoesOn (m m' : Machine) : Prop where
  number : m'.thread.number = m.thread.number
  depth : m'.thread.depth = m.thread.depth

namespace Logs

variable {m m₁ m' : Machine}

theorem of_quiet (h : m.Older m') (hs : ∀ k, m.stagesOf k m' = []) : m.Logs m' :=
  ⟨h, fun k _ _ => hs k, fun _ k => by rw [hs k]; exact .nil⟩

theorem of_journal_eq (hj : m'.shared.journal = m.shared.journal)
    (hn : m'.shared.nextThread = m.shared.nextThread) : m.Logs m' :=
  of_quiet ⟨⟨[], hj.symm⟩, Nat.le_of_eq hn.symm⟩ fun _ => stagesOf_of_journal_eq hj

theorem of_idle (h : m.Idle m') : m.Logs m' := of_quiet h.older h.stagesOf

theorem trans (h : m.Logs m₁) (hg : m.GoesOn m₁) (h' : m₁.Logs m') : m.Logs m' := by
  have hlevel : ∀ k, m₁.levelOf k = m.levelOf k := fun k => by
    unfold levelOf
    rw [hg.number, hg.depth]
  refine ⟨h.toOlder.trans h'.toOlder, fun k hk hlt => ?_, fun hn k => ?_⟩
  · rw [h.stagesOf_trans k h'.toOlder, h.waiting k hk hlt,
      h'.waiting k (hg.number ▸ hk) (Nat.lt_of_lt_of_le hlt h.nextThread)]
    rfl
  · rw [h.stagesOf_trans k h'.toOlder]
    have hn' : m₁.thread.number < m₁.shared.nextThread :=
      hg.number ▸ Nat.lt_of_lt_of_le hn h.nextThread
    exact (h.nested hn k).append (hlevel k ▸ h'.nested hn' k)

/-- Where nothing is run afterwards, nothing more is written. -/
theorem of_idle_after (h : m.Logs m₁) (h' : m₁.Idle m') : m.Logs m' := by
  have hsame : ∀ k, m.stagesOf k m' = m.stagesOf k m₁ := fun k => by
    rw [h.stagesOf_trans k h'.older, h'.stagesOf k, List.append_nil]
  refine ⟨h.toOlder.trans h'.older, fun k hk hlt => ?_, fun hn k => ?_⟩
  · rw [hsame k, h.waiting k hk hlt]
  · rw [hsame k]
    exact h.nested hn k

/-- What is written does not depend on the thread that runs afterwards. -/
theorem withThread (h : m.Logs m') (t : Thread) : m.Logs { m' with thread := t } :=
  ⟨⟨h.journal, h.nextThread⟩, h.waiting, h.nested⟩

/-- What is written one level deeper. -/
theorem of_deeper (h : m.deeper.Logs m') : m.Logs m' := by
  have hdeeper := Idle.deeper m
  have hsame : ∀ k, m.stagesOf k m' = m.deeper.stagesOf k m' := fun k => by
    rw [hdeeper.older.stagesOf_trans k h.toOlder, hdeeper.stagesOf k]
    rfl
  refine ⟨hdeeper.older.trans h.toOlder, fun k hk hlt => ?_, fun hn k => ?_⟩
  · rw [hsame k]
    exact h.waiting k hk hlt
  · rw [hsame k]
    refine (h.nested hn k).mono ?_
    unfold levelOf
    split
    · rename_i hk
      rw [if_pos (show k = m.deeper.thread.number from hk)]
      exact Nat.le_succ _
    · exact Nat.zero_le _

/-- What a thread of its own writes. -/
theorem of_started (h : m.threadStarted.Logs m') : m.Logs m' := by
  have hsame : ∀ k, m.stagesOf k m' = m.threadStarted.stagesOf k m' := fun _ => rfl
  have hwaiting : ∀ k, k < m.shared.nextThread → m.stagesOf k m' = [] := fun k hlt =>
    h.waiting k (Nat.ne_of_lt hlt) (Nat.lt_succ_of_lt hlt)
  refine ⟨⟨h.journal, Nat.le_of_succ_le h.nextThread⟩, fun k _ hlt => hwaiting k hlt,
    fun hn k => ?_⟩
  by_cases hk : k = m.thread.number
  · rw [hwaiting k (hk ▸ hn)]
    exact .nil
  · have hstarted : m.threadStarted.levelOf k = m.levelOf k := by
      unfold levelOf
      rw [if_neg hk]
      exact ite_self 0
    exact hstarted ▸ h.nested (Nat.lt_succ_self _) k

end Logs

end Machine

open Machine

/-- Every run writes nested words, and when it is left its thread goes on as before. -/
def Reading.logs : Reading where
  left m m' := m.Logs m' ∧ m.GoesOn m'
  halted := Logs

namespace Reading

theorem logs_trans {m m₁ m' : Machine} (h : logs.left m m₁) (h' : logs.left m₁ m') :
    logs.left m m' :=
  ⟨h.1.trans h.2 h'.1, h'.2.number.trans h.2.number, h'.2.depth.trans h.2.depth⟩

theorem logs_note (m : Machine) {e : Entry} (he : e.isStage = false) : logs.left m (m.note e) :=
  ⟨.of_idle (.note he m), rfl, rfl⟩

theorem logs_shared (m : Machine) {s : Shared} (hj : s.journal = m.shared.journal)
    (hn : s.nextThread = m.shared.nextThread) : logs.left m { m with shared := s } :=
  ⟨.of_journal_eq hj hn, rfl, rfl⟩

theorem logs_trappingSet (m : Machine) (enabled : Bool) :
    logs.left m (m.trappingSet enabled) := by
  refine logs_trans ?_ (logs_note _ rfl)
  exact logs_shared m rfl rfl

theorem logs_settingsApplied (m : Machine) (settings : Settings) :
    logs.left m (m.settingsApplied settings) := by
  refine logs_trans ?_ (logs_note _ rfl)
  have hset : logs.left m { m with shared :=
      { m.shared with forceBacktrace := settings.backtrace } } := logs_shared m rfl rfl
  dsimp only
  split
  · exact logs_trans hset (logs_trappingSet _ _)
  · exact hset

theorem logs_closed : logs.Closed where
  refl m := ⟨.of_idle (.refl m), rfl, rfl⟩
  trans := logs_trans
  stop h := h.1
  stopLater h h' := h.1.trans h.2 h'
  alike h := ⟨.of_journal_eq h.journal h.nextThread, h.number, h.depth⟩
  note m _ he _ := logs_note m he
  clear m := ⟨.of_idle (.withCurrent _ m), rfl, rfl⟩
  store m _ := ⟨.of_idle (.withCurrent _ m), rfl, rfl⟩
  protect h := ⟨h.1.of_deeper.of_idle_after (.unprotected _ _), h.2.number, rfl⟩
  protectHalted := Logs.of_deeper
  thread h := ⟨h.1.of_started.withThread _, rfl, rfl⟩
  threadHalted := Logs.of_started
  trap := logs_trappingSet
  apply := logs_settingsApplied
  dismissed _ := logs_shared _ rfl rfl
  trapEntered _ := ⟨.of_journal_eq rfl rfl, rfl, rfl⟩

theorem logs_of_fits {α : Type} {out : Outcome α} {m : Machine} (h : out.Fits logs m) :
    m.Logs out.machine := by
  obtain ⟨_ | _ | _, m'⟩ := out
  · exact h.1
  · exact h.1
  · exact h

end Reading

/-! ## Try blocks -/

theorem Course.isPassage {selected declared : Bool} {a : Activation}
    {legs : List (Leg Activation)} {sent : List Activation}
    (h : Course (Stage.passage selected declared) a legs sent) :
    Stage.IsPassage (legs.map Leg.move) := by
  refine ⟨selected, declared, ?_⟩
  by_cases hend : a.run.ending = .returned () ∨ sent ≠ []
  · exact .inl (h.ended hend)
  · obtain ⟨hne, hnil⟩ := not_or.1 hend
    obtain ⟨hmoves, ls, l, rfl, hl, -⟩ := h.cut hne (Classical.not_not.1 hnil)
    refine .inr ⟨hmoves, ls.map Leg.move, l.move, List.map_append, ?_⟩
    exact h.calling l (List.mem_append_right _ List.mem_cons_self) hl

namespace TryBlock

variable {n k : Nat} {body : Block} {clauses : List (Trigger × Block)} {m : Machine}

/-- What is written while a try block is run. -/
theorem stagesOf_attempt (k : Nat)
    (hcalled : ∀ l c, Enters ⟨n, .stmt (.attempt body clauses), m⟩ l c →
      c.machine.Older c.run.machine) :
    m.Older (Activation.run ⟨n, .stmt (.attempt body clauses), m⟩).machine ∧
    m.stagesOf k (Activation.run ⟨n, .stmt (.attempt body clauses), m⟩).machine =
      (if k = m.thread.number then
        (legs n body clauses m).flatMap fun l => (l.stagesOf k).lines m.thread.depth
        else (legs n body clauses m).flatMap fun l => (l.stagesOf k).inside) ++
      (sent n body clauses m).flatMap (Activation.stagesOf k) := by
  obtain ⟨m₁, hgoes, hruns⟩ := (course_attempt n body clauses m).goes
  obtain ⟨holder, hlines⟩ := hgoes.stagesOf k fun l hl c hc =>
    (enters_legs hl hc).elim (hcalled _ c) (hcalled _ c)
  obtain ⟨holder', hlines'⟩ := hruns.stagesOf k fun c hc => hcalled _ c (enters_sent hc)
  refine ⟨holder.trans holder', ?_⟩
  rw [← hlines, ← hlines']
  exact holder.stagesOf_trans k holder'

/-- A piece that a try block runs writes nested words one level deeper, or on the same level once
the try block has left its own. -/
theorem nested_called {l : Label} {c : Activation}
    (e : Enters ⟨n, .stmt (.attempt body clauses), m⟩ l c) (h : c.machine.Logs c.run.machine)
    (hn : m.thread.number < m.shared.nextThread) (k : Nat) :
    Nested (if k = m.thread.number then m.thread.depth + if l.protects then 1 else 0 else 0)
      (c.stagesOf k) := by
  have hadds : Adds m c.machine := adds_of_enters e
  have hdepth : c.machine.thread.depth = m.thread.depth + _ := depth_of_enters e
  have hnested := h.nested (hadds.number ▸ Nat.lt_of_lt_of_le hn hadds.nextThread) k
  unfold levelOf at hnested
  rw [hadds.number, hdepth] at hnested
  exact hnested

theorem nested_legs (hn : m.thread.number < m.shared.nextThread)
    (hcalled : ∀ l c, Enters ⟨n, .stmt (.attempt body clauses), m⟩ l c →
      c.machine.Logs c.run.machine)
    {l : Leg Activation} (hl : l ∈ legs n body clauses m) {c : Activation} (hc : c ∈ l.inside)
    (k : Nat) : Nested (if k = m.thread.number then m.thread.depth + 1 else 0) (c.stagesOf k) := by
  obtain e | e := enters_legs hl hc
  · exact nested_called e (hcalled _ _ e) hn k
  · exact nested_called e (hcalled _ _ e) hn k

theorem nested_sent (hn : m.thread.number < m.shared.nextThread)
    (hcalled : ∀ l c, Enters ⟨n, .stmt (.attempt body clauses), m⟩ l c →
      c.machine.Logs c.run.machine)
    {c : Activation} (hc : c ∈ sent n body clauses m) (k : Nat) :
    Nested (m.levelOf k) (c.stagesOf k) := by
  have e := enters_sent hc
  exact nested_called e (hcalled _ _ e) hn k

/-- A try block writes nested words if all that it runs does. -/
theorem logs_attempt (hcalled : ∀ l c, Enters ⟨n, .stmt (.attempt body clauses), m⟩ l c →
      c.machine.Logs c.run.machine) :
    m.Logs (Activation.run ⟨n, .stmt (.attempt body clauses), m⟩).machine := by
  have hcourse := course_attempt n body clauses m
  have hwritten := fun k => stagesOf_attempt k fun l c e => (hcalled l c e).toOlder
  have hwaiting : ∀ {l c}, Enters ⟨n, .stmt (.attempt body clauses), m⟩ l c →
      ∀ k, k ≠ m.thread.number → k < m.shared.nextThread → c.stagesOf k = [] := by
    intro l c e k hk hlt
    have hadds : Adds m c.machine := adds_of_enters e
    exact (hcalled l c e).waiting k (hadds.number ▸ hk) (Nat.lt_of_lt_of_le hlt hadds.nextThread)
  refine ⟨(hwritten 0).1, fun k hk hlt => ?_, fun hn k => ?_⟩
  · rw [(hwritten k).2, if_neg hk, List.append_eq_nil_iff, List.flatMap_eq_nil_iff,
      List.flatMap_eq_nil_iff]
    refine ⟨fun l hl => List.flatMap_eq_nil_iff.2 fun c hc => ?_,
      fun c hc => hwaiting (enters_sent hc) k hk hlt⟩
    exact (enters_legs hl hc).elim (hwaiting · k hk hlt) (hwaiting · k hk hlt)
  · have hsent : Nested (m.levelOf k) ((sent n body clauses m).flatMap (Activation.stagesOf k)) :=
      .flatMap fun c hc => nested_sent hn hcalled hc k
    rw [(hwritten k).2]
    by_cases hk : k = m.thread.number
    · have hlevel : m.levelOf k = m.thread.depth := if_pos hk
      rw [if_pos hk]
      rw [hlevel] at hsent ⊢
      rw [← List.flatMap_map (Leg.stagesOf k) (Leg.lines m.thread.depth)]
      refine .attempt (Nat.le_refl _) ?_ ?_ ?_ hsent
      · rw [List.map_map]
        exact hcourse.isPassage
      · intro l' hl' hne
        obtain ⟨l, hl, rfl⟩ := List.mem_map.1 hl'
        refine hcourse.calling l hl fun h => hne ?_
        unfold Leg.stagesOf
        rw [h]
        rfl
      · intro l' hl'
        obtain ⟨l, hl, rfl⟩ := List.mem_map.1 hl'
        refine .flatMap fun c hc => ?_
        have hinside := nested_legs hn hcalled hl hc k
        rwa [if_pos hk] at hinside
    · rw [if_neg hk]
      refine .append (.flatMap fun l hl => .flatMap fun c hc => ?_) hsent
      have hinside := nested_legs hn hcalled hl hc k
      rw [if_neg hk] at hinside
      exact (show m.levelOf k = 0 from if_neg hk) ▸ hinside

end TryBlock

/-! ## Programs -/

namespace Reading

theorem declare_follows_logs (n : Nat) (hjob : ∀ j, Follows logs (Job.run n j)) (body : Block)
    (clauses : List (Trigger × Block)) :
    Follows logs (TryBlock.declare (Job.run n) body clauses) := by
  intro m
  have hlogs : m.Logs (Activation.run ⟨n, .stmt (.attempt body clauses), m⟩).machine :=
    TryBlock.logs_attempt fun l c e => logs_of_fits (logs_closed.fits_called hjob e)
  have hgoes : ∀ {o m'}, (Activation.run ⟨n, .stmt (.attempt body clauses), m⟩).Leaves o m' →
      m.GoesOn m' := fun h => ⟨(Spawns.oblivious.obeys_run h).number, depth_of_leaves h⟩
  show (Activation.run ⟨n, .stmt (.attempt body clauses), m⟩).Fits logs m
  rcases hrun : Activation.run ⟨n, .stmt (.attempt body clauses), m⟩ with ⟨_ | t | e, m'⟩
  · rw [hrun] at hlogs
    exact ⟨hlogs, hgoes (leaves_of_returned hrun)⟩
  · rw [hrun] at hlogs
    exact ⟨hlogs, hgoes (leaves_of_unwound hrun)⟩
  · rw [hrun] at hlogs
    exact hlogs

/-- Whatever is built from the jobs of a run writes nested words. -/
theorem follows_logs {α : Type} {x : Effect α} {n : Nat} {tries : Prop}
    (h : Built (Job.run n) (Job.run n) tries x x) : Follows logs x :=
  logs_closed.follows declare_follows_logs h

theorem logs_called {n : Nat} {body : Block} {clauses : List (Trigger × Block)} {m : Machine}
    {l : Label} {c : Activation} (e : Enters ⟨n, .stmt (.attempt body clauses), m⟩ l c) :
    c.machine.Logs c.run.machine :=
  have hjob := fun j => follows_logs (Built.job j : Built _ _ False _ _)
  logs_of_fits (logs_closed.fits_called hjob e)

end Reading

/-- Everything that is noted while a program is run, newest first. -/
def Program.journal (w : Surroundings) (fuel : Nat) (p : Program) : List JournalLine :=
  ((p.verdict (Job.run fuel)).run (.fresh w)).machine.shared.journal

theorem Program.entries_runWith (w : Surroundings) (fuel : Nat) (p : Program) :
    (p.runWith w fuel).entries = (p.journal w fuel).reverse.map (·.entry) := by
  unfold runWith journal
  obtain ⟨_ | _ | _, m⟩ := (p.verdict (Job.run fuel)).run (.fresh w)
  · rfl
  · rfl
  · rfl

theorem Program.nested_journal (w : Surroundings) (fuel : Nat) (p : Program) (k : Nat) :
    Nested 0 (stageLines k (p.journal w fuel)) := by
  have hlogs : (Machine.fresh w).Logs ((p.verdict (Job.run fuel)).run (.fresh w)).machine :=
    Reading.logs_of_fits (Reading.follows_logs (Built.verdict p : Built _ _ False _ _) (.fresh w))
  have hnested := hlogs.nested Nat.zero_lt_one k
  have hlevel : (Machine.fresh w).levelOf k = 0 := ite_self 0
  rw [hlevel, stagesOf_of_journal k (p.journal w fuel) (List.append_nil _).symm] at hnested
  exact hnested

/-- What the thread of a piece writes about stages while the piece is run. -/
def Activation.stages (a : Activation) : List StageLine := a.stagesOf a.machine.thread.number

/-- What a try block writes about its stages.  It calls the pieces on its ways and sends its
exception on; its lines are those about its ways, with the level on which it was entered, and in
between are those of the pieces, which are words of the levels inside.  It goes through the whole
passage when it comes to its end, and otherwise is cut on a way where it has called something that
did not return. -/
structure WritesStages (selected declared : Bool) (a : Activation) (legs : List (Leg Activation))
    (sent : List Activation) : Prop where
  calls : ∀ l ∈ legs, ∀ c ∈ l.inside, ∃ label, Enters a label c
  sends : ∀ c ∈ sent, Enters a .plain c
  lines : a.stages =
    (legs.flatMap fun l =>
      (l.stagesOf a.machine.thread.number).lines a.machine.thread.depth) ++
    sent.flatMap (Activation.stagesOf a.machine.thread.number)
  inside : ∀ l ∈ legs, ∀ c ∈ l.inside,
    l.move ∈ Leg.calling ∧ Nested (a.machine.thread.depth + 1) c.stages
  afterwards : ∀ c ∈ sent, Nested a.machine.thread.depth c.stages
  ended : a.run.ending = .returned () ∨ sent ≠ [] →
    legs.map Leg.move = Stage.passage selected declared
  cut : a.run.ending ≠ .returned () → sent = [] →
    legs.map Leg.move <+: Stage.passage selected declared ∧
    ∃ first last, legs = first ++ [last] ∧ last.move ∈ Leg.calling ∧
      last.inside ≠ [] ∧ ∀ c ∈ last.inside, c.run.ending ≠ .returned ()

/-- What each thread of a program writes about stages is a nested word, and of every try block it is
known which ways its lines are about, where it is cut and what stands in between.  The way through a
clause is gone only if a clause matches the exception from the body, and that through a completion
clause only if there is one. -/
theorem stages_form_words :
    (∀ (w : Surroundings) (fuel : Nat) (p : Program),
      (p.runWith w fuel).entries = (p.journal w fuel).reverse.map (·.entry) ∧
      ∀ k, Nested 0 (stageLines k (p.journal w fuel))) ∧
    ∀ (n : Nat) (body : Block) (clauses : List (Trigger × Block)) (m : Machine),
      m.thread.number < m.shared.nextThread →
      WritesStages (TryBlock.selected n body clauses m) (TryBlock.completes clauses)
        ⟨n, .stmt (.attempt body clauses), m⟩ (TryBlock.legs n body clauses m)
        (TryBlock.sent n body clauses m) := by
  refine ⟨fun w fuel p => ⟨p.entries_runWith w fuel, p.nested_journal w fuel⟩,
    fun n body clauses m hn => ?_⟩
  have hcourse := TryBlock.course_attempt n body clauses m
  have hcalled : ∀ l c, Enters ⟨n, .stmt (.attempt body clauses), m⟩ l c →
      c.machine.Logs c.run.machine := fun _ _ => Reading.logs_called
  have hnumber : ∀ {l c}, Enters ⟨n, .stmt (.attempt body clauses), m⟩ l c →
      c.machine.thread.number = m.thread.number := fun e => (adds_of_enters e).number
  refine ⟨fun l hl c hc => ?_, fun c => TryBlock.enters_sent, ?_, fun l hl c hc => ?_,
    fun c hc => ?_, hcourse.ended, fun hne hnil => ?_⟩
  · exact (TryBlock.enters_legs hl hc).elim (⟨_, ·⟩) (⟨_, ·⟩)
  · have holder := fun l c e => (hcalled l c e).toOlder
    refine (TryBlock.stagesOf_attempt m.thread.number holder).2.trans ?_
    rw [if_pos rfl]
  · refine ⟨hcourse.calling l hl fun h => List.not_mem_nil (h ▸ hc), ?_⟩
    have hinside := TryBlock.nested_legs hn hcalled hl hc c.machine.thread.number
    rwa [if_pos ((TryBlock.enters_legs hl hc).elim hnumber hnumber)] at hinside
  · have hafter := TryBlock.nested_sent hn hcalled hc c.machine.thread.number
    rwa [levelOf, if_pos (hnumber (TryBlock.enters_sent hc))] at hafter
  · obtain ⟨hmoves, first, last, hlegs, hinside, hstopped⟩ := hcourse.cut hne hnil
    refine ⟨hmoves, first, last, hlegs, ?_, hinside, hstopped⟩
    exact hcourse.calling last (hlegs ▸ List.mem_append_right _ List.mem_cons_self) hinside

end

/-- A try block without a clause around a throw. -/
def throwingTry : Block := [.attempt [.throw (.bool true)] []]

/-- A clause that ends the thread. -/
def exitingClause : List (Trigger × Block) := [(.any, [.exit 0])]

theorem stages_form_words_cut :
    0 < 1 ∧
    WritesStages true false ⟨8, .stmt (.attempt throwingTry exitingClause), .initial⟩
      (TryBlock.legs 8 throwingTry exitingClause .initial)
      (TryBlock.sent 8 throwingTry exitingClause .initial) ∧
    Activation.stages ⟨8, .stmt (.attempt throwingTry exitingClause), .initial⟩ =
      [⟨0, .trying, .trying⟩, ⟨1, .trying, .trying⟩, ⟨1, .trying, .catching⟩,
        ⟨1, .catching, .finishing⟩, ⟨1, .finishing, .propagating⟩, ⟨0, .trying, .catching⟩,
        ⟨0, .catching, .unexpected⟩] :=
  ⟨Nat.zero_lt_one, stages_form_words.2 8 throwingTry exitingClause .initial Nat.zero_lt_one, rfl⟩

end NonlocalExit
