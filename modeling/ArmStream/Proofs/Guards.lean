import ArmStream.Proofs.CallerSide
import ArmStream.Proofs.Steps

/-!
# Guards

A guard comes from a handle of the link or from another guard, and goes when its owner drops it.
The link only counts: it cannot tell one guard from another. Here the guards that are alive are
kept beside the link by number, so that a guard is cloned or dropped only by somebody who has it.
The count of the link is then the number of guards alive, whatever else callers and the loop do.

## Main definitions

- `Guarded`: a link with the guards that are alive.
- `GuardAction`, `Guarded.step`: what can happen next.

## Main statements

- `System.guards_step`: only taking and dropping guards changes the count.
- `Guarded.counted_run`: the count is the number of guards alive.
-/

namespace ArmStream

variable {σ : Type} {net : Net σ}

namespace System

/-- Only taking and dropping guards changes their number. -/
theorem guards_step (net : Net σ) (y : System σ) (a : Action) :
    (y.step net a).link.guards = a.guardsAfter y.link.guards := by
  rcases a.isCallers_or with hcallers | rfl | ⟨r, rfl⟩
  · have hcalled := called_step net y hcallers
    generalize y.step net a = y' at hcalled ⊢
    cases hcalled with
    | aside _ _ hguards => exact hguards
    | submitted | refused => rfl
  · exact congrArg CallerSide.guards (returns_proceed net y).callerSide_eq
  · exact congrArg CallerSide.guards (returns_wake net y r).callerSide_eq

end System

/-! ## Guards as values -/

structure Guarded (σ : Type) where
  system : System σ
  /-- The numbers of the guards that are alive. -/
  live : List Nat := []
  /-- How many guards there were so far. -/
  made : Nat := 0

inductive GuardAction where
  /-- A handle of the link gives a guard. -/
  | take
  | clone (g : Nat)
  | drop (g : Nat)
  | submit (b : Builder)
  | acquire
  | stop
  | proceed
  | wake (r : Reply (List Event))

namespace Guarded

def gain (net : Net σ) (x : Guarded σ) : Guarded σ where
  system := x.system.step net .guard
  live := x.live ++ [x.made]
  made := x.made + 1

def lose (net : Net σ) (x : Guarded σ) (g : Nat) : Guarded σ :=
  { x with system := x.system.step net .dropGuard, live := x.live.erase g }

def act (net : Net σ) (x : Guarded σ) (a : Action) : Guarded σ :=
  { x with system := x.system.step net a }

/-- One action. A guard that is not alive can be neither cloned nor dropped. -/
def step (net : Net σ) (x : Guarded σ) : GuardAction → Guarded σ
  | .take => x.gain net
  | .clone g => if g ∈ x.live then x.gain net else x
  | .drop g => if g ∈ x.live then x.lose net g else x
  | .submit b => x.act net (.submit b)
  | .acquire => x.act net .acquire
  | .stop => x.act net .stop
  | .proceed => x.act net .proceed
  | .wake r => x.act net (.wake r)

def run (net : Net σ) (x : Guarded σ) (actions : List GuardAction) : Guarded σ :=
  actions.foldl (step net) x

structure Counted (x : Guarded σ) : Prop where
  guards : x.system.link.guards = x.live.length
  nodup : x.live.Nodup
  bounded : ∀ g ∈ x.live, g < x.made

namespace Counted

variable {x : Guarded σ}

theorem gain (h : x.Counted) (net : Net σ) : (x.gain net).Counted := by
  refine ⟨?_, ?_, ?_⟩
  · simp [Guarded.gain, System.guards_step, Action.guardsAfter, h.guards]
  · refine List.nodup_append.2 ⟨h.nodup, by simp, fun g hg k hk => ?_⟩
    obtain rfl := List.mem_singleton.1 hk
    exact Nat.ne_of_lt (h.bounded g hg)
  · intro g hg
    rcases List.mem_append.1 hg with hold | hnew
    · exact Nat.lt_succ_of_lt (h.bounded g hold)
    · obtain rfl := List.mem_singleton.1 hnew
      exact Nat.lt_succ_self _

theorem lose (h : x.Counted) (net : Net σ) {g : Nat} (hg : g ∈ x.live) :
    (x.lose net g).Counted := by
  refine ⟨?_, h.nodup.erase g, fun k hk => h.bounded k (List.mem_of_mem_erase hk)⟩
  simp [Guarded.lose, System.guards_step, Action.guardsAfter, h.guards, List.length_erase_of_mem hg]

theorem act (h : x.Counted) (net : Net σ) {a : Action} (ha : ∀ n, a.guardsAfter n = n) :
    (x.act net a).Counted := by
  refine ⟨?_, h.nodup, h.bounded⟩
  exact (System.guards_step net x.system a).trans ((ha _).trans h.guards)

theorem step (h : x.Counted) (net : Net σ) (a : GuardAction) : (x.step net a).Counted := by
  cases a with
  | take => exact h.gain net
  | clone g =>
    simp only [Guarded.step]
    split
    · exact h.gain net
    · exact h
  | drop g =>
    simp only [Guarded.step]
    split
    next hg => exact h.lose net hg
    next => exact h
  | submit | acquire | stop | proceed | wake => exact h.act net fun _ => rfl

end Counted

/-- The count of the link is the number of guards alive. -/
theorem counted_run (net : Net σ) {x : Guarded σ} (h : x.Counted) (actions : List GuardAction) :
    (x.run net actions).Counted := by
  induction actions generalizing x with
  | nil => exact h
  | cons a rest ih => exact ih (h.step net a)

/-- Such an action is one of the actions of the link, or none. -/
theorem exists_system_step (net : Net σ) (x : Guarded σ) (a : GuardAction) :
    ∃ actions, (x.step net a).system = x.system.run net actions := by
  cases a with
  | take => exact ⟨[.guard], rfl⟩
  | clone g =>
    simp only [step]
    split
    · exact ⟨[.guard], rfl⟩
    · exact ⟨[], rfl⟩
  | drop g =>
    simp only [step]
    split
    · exact ⟨[.dropGuard], rfl⟩
    · exact ⟨[], rfl⟩
  | submit b => exact ⟨[.submit b], rfl⟩
  | acquire => exact ⟨[.acquire], rfl⟩
  | stop => exact ⟨[.stop], rfl⟩
  | proceed => exact ⟨[.proceed], rfl⟩
  | wake r => exact ⟨[.wake r], rfl⟩

theorem exists_system_run (net : Net σ) (x : Guarded σ) (actions : List GuardAction) :
    ∃ actions', (x.run net actions).system = x.system.run net actions' := by
  induction actions generalizing x with
  | nil => exact ⟨[], rfl⟩
  | cons a rest ih =>
    obtain ⟨first, hfirst⟩ := x.exists_system_step net a
    obtain ⟨others, hothers⟩ := ih (x.step net a)
    refine ⟨first ++ others, ?_⟩
    calc (x.run net (a :: rest)).system
        = (x.step net a).system.run net others := hothers
      _ = x.system.run net (first ++ others) := by
        rw [hfirst, System.run, System.run, System.run, List.foldl_append]

end Guarded

end ArmStream
