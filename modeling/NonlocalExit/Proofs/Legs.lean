import NonlocalExit.Proofs.Construction
import NonlocalExit.Proofs.Layers
import NonlocalExit.Proofs.Stages

/-!
# Ways from stage to stage

A try block goes from stage to stage, and on some of these ways it runs a piece of the program.  A
`Leg` is such a way with what is run on it; `Goes` says that a thread goes some ways and does
nothing else, and `Way` that it has come to the end of the moves it was to make, or has stopped
short on a way where a piece was run that has not returned.

`Way.bind` puts ways together as effects are put together, and `Way.around` is the way of a block
under capture, the one kind of place where a try block may stop.
-/

namespace NonlocalExit

variable [Declarations]

open Effect

/-- A way from one stage to another, with what goes on before the next one is noted. -/
structure Leg (α : Type) where
  before : Stage
  after : Stage
  inside : List α

namespace Leg

/-- The two stages. -/
def move {α : Type} (l : Leg α) : Stage × Stage := (l.before, l.after)

/-- The ways on which something may be run. -/
def calling : List (Stage × Stage) :=
  [(.trying, .trying), (.catching, .unexpected), (.finishing, .unexpected)]

end Leg

/-! ## Pieces that are run one after another -/

/-- Whether nothing was run between two machines: only the level and the record of the thread may
have changed, and no stage was noted. -/
structure Machine.Idle (m m' : Machine) : Prop where
  thread : m'.thread = { m.thread with depth := m'.thread.depth, current := m'.thread.current }
  shared : ∃ es : List Entry, (∀ e ∈ es, e.isStage = false) ∧
    m'.shared = { m.shared with
      journal := es.map (⟨m.thread.number, ·⟩) ++ m.shared.journal }

namespace Machine.Idle

variable {m m₁ m' : Machine}

theorem refl (m : Machine) : m.Idle m := ⟨rfl, [], List.forall_mem_nil _, rfl⟩

theorem number (h : m.Idle m') : m'.thread.number = m.thread.number := by rw [h.thread]

theorem trans (h : m.Idle m₁) (h' : m₁.Idle m') : m.Idle m' := by
  obtain ⟨es, hes, hs⟩ := h.shared
  obtain ⟨es', hes', hs'⟩ := h'.shared
  refine ⟨by rw [h'.thread, h.thread], es' ++ es, ?_, ?_⟩
  · exact fun e he => (List.mem_append.1 he).elim (hes' e) (hes e)
  · rw [hs', hs, h.number, List.map_append, List.append_assoc]

theorem note {e : Entry} (he : e.isStage = false) (m : Machine) : m.Idle (m.note e) :=
  ⟨rfl, [e], by simpa using he, rfl⟩

theorem withCurrent (e : Option Exception) (m : Machine) : m.Idle (m.withCurrent e) :=
  ⟨rfl, [], List.forall_mem_nil _, rfl⟩

theorem deeper (m : Machine) : m.Idle m.deeper :=
  ⟨rfl, [.step (.protectedFrom m.thread.depth)], by simp [Entry.isStage], rfl⟩

theorem unprotected (link : Nat) (m : Machine) : m.Idle (m.unprotected link) :=
  ⟨rfl, [.step (.protectedUntil link)], by simp [Entry.isStage], rfl⟩

theorem warned : ∀ (bs : List Block) (m : Machine), m.Idle (m.warned bs)
  | [], m => refl m
  | [_], m => refl m
  | _ :: b :: rest, m => (note rfl m).trans (warned (b :: rest) _)

theorem passedOver (e : Exception) : ∀ (clauses : List (Trigger × Block)) (m : Machine),
    m.Idle (m.passedOver e clauses)
  | [], m => refl m
  | (.typed t, _) :: rest, m => by
    unfold Machine.passedOver
    split
    · split
      · exact refl m
      · exact (note rfl m).trans (passedOver e rest _)
    · exact passedOver e rest m
  | (.any, _) :: _, m => refl m
  | (.completion, _) :: rest, m => passedOver e rest m

end Machine.Idle

/-- Whether pieces are run one after another, and nothing else, between two machines. -/
inductive Runs : Machine → List Activation → Machine → Prop
  | nil {m m'} (h : m.Idle m') : Runs m [] m'
  | cons {m : Machine} {c : Activation} {cs m'} (h : m.Idle c.machine)
    (t : Runs c.run.machine cs m') : Runs m (c :: cs) m'

/-- Whether a thread goes some ways, one after another, and does nothing else between two machines.
The ways are noted with the level `link`. -/
inductive Goes (thread link : Nat) : Machine → List (Leg Activation) → Machine → Prop
  | nil {m m'} (h : m.Idle m') : Goes thread link m [] m'
  | cons {m m₁ m₂ l ls m'} (h : m.Idle m₁) (hn : m₁.thread.number = thread)
    (hr : Runs (m₁.stage link l.before l.after) l.inside m₂) (t : Goes thread link m₂ ls m') :
    Goes thread link m (l :: ls) m'

section

variable {thread link : Nat} {m m₁ m' : Machine} {ls ls' : List (Leg Activation)}
  {cs : List Activation}

theorem Goes.of_idle (h : m.Idle m₁) (hg : Goes thread link m₁ ls m') :
    Goes thread link m ls m' := by
  cases hg with
  | nil h' => exact .nil (h.trans h')
  | cons h' hn hr t => exact .cons (h.trans h') hn hr t

theorem Goes.append (hg : Goes thread link m ls m₁) (hg' : Goes thread link m₁ ls' m') :
    Goes thread link m (ls ++ ls') m' := by
  induction hg with
  | nil h => exact hg'.of_idle h
  | cons h hn hr _ ih => exact .cons h hn hr (ih hg')

theorem Goes.leg {b a : Stage} (hn : m.thread.number = thread)
    (hr : Runs (m.stage link b a) cs m') : Goes thread link m [⟨b, a, cs⟩] m' :=
  .cons (.refl m) hn hr (.nil (.refl m'))

end

/-! ## Ways that are gone through, and ways that are cut -/

/-- What is listed for an outcome that is a value. -/
def Outcome.next {α β : Type} (out : Outcome α) (f : α → Machine → List β) : List β :=
  match out with
  | ⟨.returned a, m⟩ => f a m
  | _ => []

theorem Outcome.mem_next {α β : Type} {out : Outcome α} {f : α → Machine → List β} {x : β}
    (h : x ∈ out.next f) : ∃ a m, out = ⟨.returned a, m⟩ ∧ x ∈ f a m := by
  obtain ⟨a | t | h', m⟩ := out
  · exact ⟨a, m, rfl, h⟩
  · cases h
  · cases h

/-- Whether an effect went some ways, by its outcome: through all of the moves, or up to one on
which a piece was run that has not returned. -/
inductive Way {α : Type} (thread link : Nat) (m : Machine) (moves : List (Stage × Stage)) :
    Outcome α → List (Leg Activation) → Prop
  | through {a m' ls} (hn : m'.thread.number = thread) (hg : Goes thread link m ls m')
    (hm : ls.map Leg.move = moves) (hc : ∀ l ∈ ls, l.inside ≠ [] → l.move ∈ Leg.calling) :
    Way thread link m moves ⟨.returned a, m'⟩ ls
  | cut {out : Outcome α} {ls l} (hout : ∀ a, out.ending ≠ .returned a)
    (hg : Goes thread link m (ls ++ [l]) out.machine) (hm : (ls ++ [l]).map Leg.move <+: moves)
    (hc : ∀ l' ∈ ls ++ [l], l'.inside ≠ [] → l'.move ∈ Leg.calling) (hl : l.inside ≠ [])
    (hi : ∀ c ∈ l.inside, c.run.ending ≠ .returned ()) : Way thread link m moves out (ls ++ [l])

namespace Way

variable {α β : Type} {thread link : Nat} {m m₀ m₁ : Machine} {moves moves' : List (Stage × Stage)}
  {ls : List (Leg Activation)}

theorem of_idle {out : Outcome α} (h : m₀.Idle m) (hw : Way thread link m moves out ls) :
    Way thread link m₀ moves out ls := by
  cases hw with
  | through hn hg hm hc => exact .through hn (hg.of_idle h) hm hc
  | cut hout hg hm hc hl hi => exact .cut hout (hg.of_idle h) hm hc hl hi

theorem idle {a : α} (h : m.Idle m₁) (hn : m.thread.number = thread) :
    Way thread link m [] ⟨.returned a, m₁⟩ [] :=
  .through (h.number.trans hn) (.nil h) rfl (List.forall_mem_nil _)

theorem advance {v : α} {b a : Stage} (hn : m.thread.number = thread) :
    Way thread link m [(b, a)] ⟨.returned v, m.stage link b a⟩ [⟨b, a, []⟩] :=
  .through hn (.leg hn (.nil (.refl _))) rfl (by simp)

/-- What follows is only gone when the first part has been gone through. -/
theorem bind {x : Effect α} {f : α → Effect β} {next : α → Machine → List (Leg Activation)}
    (hx : Way thread link m₀ moves (x.run m) ls)
    (hf : ∀ a m', x.run m = ⟨.returned a, m'⟩ → m'.thread.number = thread →
      Way thread link m' moves' ((f a).run m') (next a m')) :
    Way thread link m₀ (moves ++ moves') ((x >>= f).run m) (ls ++ (x.run m).next next) := by
  rw [run_bind]
  generalize hout : x.run m = out at hx
  cases hx with
  | through hn hg hm hc =>
    rename_i a m'
    show Way thread link m₀ _ ((f a).run m') (ls ++ next a m')
    have hw := hf a m' hout hn
    generalize (f a).run m' = out' at hw
    generalize next a m' = ls' at hw
    have hcalling : ∀ {ls'}, (∀ l ∈ ls', l.inside ≠ [] → l.move ∈ Leg.calling) →
        ∀ l ∈ ls ++ ls', l.inside ≠ [] → l.move ∈ Leg.calling := fun hc' l hl =>
      (List.mem_append.1 hl).elim (hc l) (hc' l)
    cases hw with
    | through hn' hg' hm' hc' =>
      exact .through hn' (hg.append hg') (by rw [List.map_append, hm, hm']) (hcalling hc')
    | cut hout' hg' hm' hc' hl hi =>
      rw [← List.append_assoc]
      refine .cut hout' ?_ ?_ ?_ hl hi
      · rw [List.append_assoc]
        exact hg.append hg'
      · rw [List.append_assoc, List.map_append, hm]
        exact (List.prefix_append_right_inj _).2 hm'
      · rw [List.append_assoc]
        exact hcalling hc'
  | cut hne hg hm hc hl hi =>
    obtain ⟨a | t | h, m'⟩ := out
    · exact (hne a rfl).elim
    · show Way thread link m₀ _ _ (_ ++ [])
      rw [List.append_nil]
      exact .cut nofun hg (hm.trans (List.prefix_append _ _)) hc hl hi
    · show Way thread link m₀ _ _ (_ ++ [])
      rw [List.append_nil]
      exact .cut nofun hg (hm.trans (List.prefix_append _ _)) hc hl hi

end Way

/-! ## A block under capture -/

/-- The ways of a block that is run on the way `there`, and after which the try block goes `back`:
that is gone when the block has returned, or an exception has escaped that the try block does not
refuse to go on with. -/
def Leg.around (there back : Stage × Stage) (refuse : Escape → Machine → Option Machine)
    (a : Activation) : List (Leg Activation) :=
  match a.run with
  | ⟨.returned _, _⟩ => [⟨there.1, there.2, [a]⟩, ⟨back.1, back.2, []⟩]
  | ⟨.halted _, _⟩ => [⟨there.1, there.2, [a]⟩]
  | ⟨.unwound t, m⟩ =>
    match t.escape? with
    | none => [⟨there.1, there.2, [a]⟩]
    | some escape =>
      match refuse escape m with
      | none => [⟨there.1, there.2, [a]⟩, ⟨back.1, back.2, []⟩]
      | some m' => [⟨there.1, there.2, [a, ⟨a.fuel, .unexpected, m'⟩]⟩]

/-- On the first way the block is run, and what is done about an exception that is given up; nothing
is run on the way back. -/
theorem Leg.exists_around (there back : Stage × Stage)
    (refuse : Escape → Machine → Option Machine) (a : Activation) :
    ∃ rest last, Leg.around there back refuse a = ⟨there.1, there.2, a :: rest⟩ :: last ∧
      (∀ c ∈ rest, ∃ t escape m₁ m₂, a.run = ⟨.unwound t, m₁⟩ ∧ t.escape? = some escape ∧
        refuse escape m₁ = some m₂ ∧ c = ⟨a.fuel, .unexpected, m₂⟩) ∧
      ∀ l ∈ last, l.move = back ∧ l.inside = [] := by
  have hnone : ∀ {Q : Activation → Prop}, ∀ c ∈ [], Q c := fun c hc => nomatch hc
  have hback : ∀ l ∈ [(⟨back.1, back.2, []⟩ : Leg Activation)], l.move = back ∧ l.inside = [] :=
    fun l hl => List.mem_singleton.1 hl ▸ ⟨rfl, rfl⟩
  unfold Leg.around
  split
  · exact ⟨[], _, rfl, hnone, hback⟩
  · exact ⟨[], [], rfl, hnone, fun l hl => nomatch hl⟩
  · rename_i t m₁ ha
    split
    · exact ⟨[], [], rfl, hnone, fun l hl => nomatch hl⟩
    · rename_i escape ht
      split
      · exact ⟨[], _, rfl, hnone, hback⟩
      · rename_i m₂ hr
        refine ⟨_, [], rfl, fun c hc => ?_, fun l hl => nomatch hl⟩
        exact ⟨t, escape, m₁, m₂, ha, ht, hr, List.mem_singleton.1 hc⟩

theorem Leg.move_of_mem_around {there back : Stage × Stage}
    {refuse : Escape → Machine → Option Machine} {a : Activation} {l : Leg Activation}
    (hl : l ∈ Leg.around there back refuse a) : l.move = there ∨ l.move = back := by
  obtain ⟨rest, last, heq, -, hlast⟩ := exists_around there back refuse a
  rw [heq] at hl
  obtain rfl | hl := List.mem_cons.1 hl
  · exact .inl rfl
  · exact .inr (hlast l hl).1

theorem Leg.mem_around {there back : Stage × Stage}
    {refuse : Escape → Machine → Option Machine} {a c : Activation} {l : Leg Activation}
    (hl : l ∈ Leg.around there back refuse a) (hc : c ∈ l.inside) :
    c = a ∨ ∃ t escape m₁ m₂, a.run = ⟨.unwound t, m₁⟩ ∧ t.escape? = some escape ∧
      refuse escape m₁ = some m₂ ∧ c = ⟨a.fuel, .unexpected, m₂⟩ := by
  obtain ⟨rest, last, heq, hrest, hlast⟩ := exists_around there back refuse a
  rw [heq] at hl
  obtain rfl | hl := List.mem_cons.1 hl
  · exact (List.mem_cons.1 hc).imp_right (hrest c)
  · rw [(hlast l hl).2] at hc
    cases hc

/-- Whether a piece is run on the only one of some ways between two stages, with nothing after it
there unless its exception is given up; `last` are the ways that come later. -/
def Leg.Once (move : Stage × Stage) (legs : List (Leg Activation)) (c : Activation)
    (last : List (Leg Activation)) : Prop :=
  ∃ first rest, legs = first ++ ⟨move.1, move.2, c :: rest⟩ :: last ∧
    (∀ l ∈ first ++ last, l.move ≠ move) ∧ ∀ d ∈ rest, d.task = .unexpected

/-- A block is run once if no way before and none after it is like the one on which it is run. -/
theorem Leg.once_around {there back : Stage × Stage} {refuse : Escape → Machine → Option Machine}
    {a : Activation} {first later : List (Leg Activation)} (hne : back ≠ there)
    (hfirst : ∀ l ∈ first, l.move ≠ there) (hlater : ∀ l ∈ later, l.move ≠ there) :
    ∃ last, Leg.Once there (first ++ (Leg.around there back refuse a ++ later)) a (last ++ later) ∧
      ∀ l ∈ last, l.inside = [] := by
  obtain ⟨rest, last, haround, hrest, hlast⟩ := Leg.exists_around there back refuse a
  refine ⟨last, ⟨first, rest, by rw [haround, List.cons_append], fun l hl => ?_, fun d hd => ?_⟩,
    fun l hl => (hlast l hl).2⟩
  · obtain hl | hl := List.mem_append.1 hl
    · exact hfirst l hl
    · obtain hl | hl := List.mem_append.1 hl
      · rw [(hlast l hl).1]
        exact hne
      · exact hlater l hl
  · obtain ⟨_, _, _, _, _, _, _, rfl⟩ := hrest d hd
    rfl

theorem machine_never {α β : Type} (x : Effect Empty) (m : Machine) :
    ((never x : Effect α).run m).machine = ((never x : Effect β).run m).machine := by
  unfold never
  rw [run_bind, run_bind]
  obtain ⟨e | _ | _, _⟩ := x.run m
  · exact nomatch e
  · rfl
  · rfl

theorem ending_never {α : Type} (x : Effect Empty) (m : Machine) (a : α) :
    ((never x : Effect α).run m).ending ≠ .returned a := by
  intro h
  have hreturned : (never x : Effect α).run m =
      ⟨.returned a, ((never x : Effect α).run m).machine⟩ := by rw [← h]
  exact not_returned_never hreturned

/-- The block has been left, and the way back is gone. -/
theorem Way.there_and_back {α : Type} {thread link : Nat} {m m₁ : Machine}
    {there back : Stage × Stage} {cs : List Activation} {v : α}
    (hn : m.thread.number = thread) (hc : there ∈ Leg.calling)
    (hr : Runs (m.stage link there.1 there.2) cs m₁) (hn₁ : m₁.thread.number = thread) :
    Way thread link m [there, back] ⟨.returned v, m₁.stage link back.1 back.2⟩
      [⟨there.1, there.2, cs⟩, ⟨back.1, back.2, []⟩] := by
  have hfirst : Goes thread link m [⟨there.1, there.2, cs⟩] m₁ := .leg hn hr
  have hlast : Goes thread link m₁ [⟨back.1, back.2, []⟩] (m₁.stage link back.1 back.2) :=
    .leg hn₁ (.nil (.refl _))
  exact .through hn₁ (hfirst.append hlast) rfl (by simpa [Leg.move] using fun _ => hc)

/-- Something that is run on the way there does not return. -/
theorem Way.cut_there {α : Type} {thread link : Nat} {m : Machine} {there back : Stage × Stage}
    {out : Outcome α} {c : Activation} {cs : List Activation} (hn : m.thread.number = thread)
    (hc : there ∈ Leg.calling) (hout : ∀ v, out.ending ≠ .returned v)
    (hr : Runs (m.stage link there.1 there.2) (c :: cs) out.machine)
    (hi : ∀ d ∈ c :: cs, d.run.ending ≠ .returned ()) :
    Way thread link m [there, back] out [⟨there.1, there.2, c :: cs⟩] := by
  have hg : Goes thread link m ([] ++ [⟨there.1, there.2, c :: cs⟩]) out.machine := .leg hn hr
  exact .cut hout hg (by simp [Leg.move]) (by simpa [Leg.move]) nofun hi

theorem Way.around {α : Type} {thread link : Nat} {m : Machine} {a : Activation}
    {there back : Stage × Stage} {refuse : Escape → Machine → Option Machine}
    {g : Option Escape → Effect α} (hn : m.thread.number = thread) (hc : there ∈ Leg.calling)
    (hs : (m.stage link there.1 there.2).Idle a.machine)
    (hback : ∀ r m₁, (∀ escape, r = some escape → refuse escape m₁ = none) →
      ∃ v m₂, m₁.Idle m₂ ∧ (g r).run m₁ = ⟨.returned v, m₂.stage link back.1 back.2⟩)
    (hrefuse : ∀ escape m₁ m₂, refuse escape m₁ = some m₂ → m₁.Idle m₂ ∧
      (g (some escape)).run m₁ = (never (unexpected (Job.run a.fuel)) : Effect α).run m₂) :
    Way thread link m [there, back]
      ((capture (a.task.effect (Job.run a.fuel)) >>= g).run a.machine)
      (Leg.around there back refuse a) := by
  have hruns : ∀ {cs m'}, Runs a.run.machine cs m' →
      Runs (m.stage link there.1 there.2) (a :: cs) m' := fun h => .cons hs h
  have hleft : ∀ {o r m₁}, a.run.Leaves o m₁ → a.run.machine = m₁ →
      (capture (a.task.effect (Job.run a.fuel))).run a.machine = ⟨.returned r, m₁⟩ →
      (∀ escape, r = some escape → refuse escape m₁ = none) → Way thread link m [there, back]
        ((capture (a.task.effect (Job.run a.fuel)) >>= g).run a.machine)
        [⟨there.1, there.2, [a]⟩, ⟨back.1, back.2, []⟩] := by
    intro o r m₁ hl hm hr hno
    obtain ⟨v, m₂, hidle, hg⟩ := hback r m₁ hno
    have hn₁ : m₁.thread.number = thread :=
      (Spawns.oblivious.obeys_run hl).number.trans (hs.number.trans hn)
    rw [run_bind_returned hr, hg]
    exact .there_and_back hn hc (hruns (.nil (hm ▸ hidle))) (hidle.number.trans hn₁)
  unfold Leg.around
  rcases ha : a.run with ⟨_ | t | e, m₁⟩
  · exact hleft (leaves_of_returned ha) (by rw [ha]) (run_capture_returned ha) nofun
  · dsimp only
    cases ht : t.escape? with
    | none =>
      rw [run_bind_unwound (run_capture_unwound ha ht)]
      exact .cut_there hn hc nofun (hruns (.nil (by rw [ha]; exact .refl _))) (by simp [ha])
    | some escape =>
      have hr := run_capture_escaped ha ht
      dsimp only
      cases hrefused : refuse escape m₁ with
      | none =>
        refine hleft (leaves_of_unwound ha) (by rw [ha]) hr fun escape' h => ?_
        obtain rfl := Option.some.inj h
        exact hrefused
      | some m₂ =>
        obtain ⟨hidle, hg⟩ := hrefuse _ _ _ hrefused
        rw [run_bind_returned hr, hg]
        refine .cut_there hn hc (ending_never _ _) (hruns (.cons ?_ (.nil ?_))) ?_
        · rw [ha]
          exact hidle
        · rw [machine_never (β := Unit)]
          exact .refl _
        · intro c hc
          obtain rfl | hc := List.mem_cons.1 hc
          · rw [ha]
            nofun
          · obtain rfl := List.mem_singleton.1 hc
            exact ending_never _ _ ()
  · rw [run_bind_halted (run_capture_halted ha)]
    exact .cut_there hn hc nofun (hruns (.nil (by rw [ha]; exact .refl _))) (by simp [ha])

end NonlocalExit
