import ArmStream.Proofs.CallerSide
import ArmStream.Proofs.Steps

/-!
# The pool of builders

A builder is reset before it comes back to the pool, and a full pool forgets it. Nothing else that
happens to a link adds builders to its pool. So whoever takes a builder from a link gets one that
cannot be told from a new one, whatever message it held before.

## Main definitions

- `LinkState.Tidy`: the builders in the pool were reset and are not too many.

## Main statements

- `LinkState.Tidy.acquire_eq_empty`: what is taken from the pool is as new.
- `System.tidy_step`: each action keeps the pool tidy.
- `Reachable.tidy`: the pool of each reachable link is tidy.
-/

namespace ArmStream

variable {σ : Type} {net : Net σ}

namespace LinkState

/-- Each builder in the pool was reset, whatever it held before, and there are no more than the pool
may keep. -/
structure Tidy (s : LinkState σ) : Prop where
  blank : ∀ b ∈ s.pool, ∃ used : Builder, b = used.reset
  bounded : s.pool.length ≤ s.config.maxPooledBuilders

namespace Tidy

variable {s : LinkState σ}

/-! ## Taking and giving back -/

theorem of_pool_eq_nil (h : s.pool = []) : s.Tidy := ⟨by simp [h], by simp [h]⟩

/-- Only the pool and the settings matter. -/
theorem congr {s' : LinkState σ} (h : s.Tidy) (hpool : s'.pool = s.pool)
    (hconfig : s'.config = s.config) : s'.Tidy :=
  ⟨hpool ▸ h.blank, hpool ▸ hconfig ▸ h.bounded⟩

theorem acquire_eq_empty (h : s.Tidy) : s.acquire.1 = Builder.empty := by
  unfold LinkState.acquire
  split
  next => rfl
  next b rest hpool =>
    obtain ⟨used, rfl⟩ := h.blank b (by simp [hpool])
    rfl

theorem acquire (h : s.Tidy) : s.acquire.2.Tidy := by
  unfold LinkState.acquire
  split
  next => exact h
  next b rest hpool =>
    have hbounded := h.bounded
    rw [hpool, List.length_cons] at hbounded
    exact ⟨fun c hc => h.blank c (by simp [hpool, hc]), Nat.le_of_succ_le hbounded⟩

/-- The builder is reset, whatever it held. -/
theorem release (h : s.Tidy) (b : Builder) : (s.release b).Tidy := by
  unfold LinkState.release
  split
  next hroom =>
    refine ⟨fun c hc => ?_, hroom⟩
    rcases List.mem_cons.1 hc with rfl | hc
    · exact ⟨b, rfl⟩
    · exact h.blank c hc
  next => exact h

/-! ## The callers' side -/

theorem wake (h : s.Tidy) (net : Net σ) : (s.wake net).Tidy := by
  unfold LinkState.wake
  split <;> exact ⟨h.blank, h.bounded⟩

theorem submit (h : s.Tidy) (net : Net σ) (b : Builder) : (s.submit net b).1.Tidy := by
  have hreleased := h.release b
  rcases s.submit_cases net b with ⟨-, heq⟩ | ⟨-, -, heq⟩ | ⟨-, -, -, -, heq⟩ | ⟨-, -, -, -, heq⟩
  · rw [heq]
    exact hreleased
  · rw [heq]
    exact hreleased
  · rw [heq]
    exact ⟨hreleased.blank, hreleased.bounded⟩
  · have hqueued : (s.queued b).Tidy := ⟨h.blank, h.bounded⟩
    rw [heq]
    exact hqueued.wake net

theorem dropGuard (h : s.Tidy) (net : Net σ) : (s.dropGuard net).Tidy := by
  have hleft : { s with guards := s.guards - 1 }.Tidy := ⟨h.blank, h.bounded⟩
  unfold LinkState.dropGuard
  split
  next => exact hleft.wake net
  next => exact hleft

theorem stop (h : s.Tidy) (net : Net σ) : (s.stop net).Tidy := by
  have hstopped : { s with stopped := true }.Tidy := ⟨h.blank, h.bounded⟩
  exact hstopped.wake net

/-! ## The loop -/

/-- The loop only gives builders back. -/
theorem returns {s' : LinkState σ} (h : s.Tidy) (hreturns : s.Returns s') : s'.Tidy := by
  induction hreturns with
  | refl => exact h
  | aside _ heq ih =>
    exact ih.congr (congrArg CallerSide.pool heq) (congrArg CallerSide.config heq)
  | release b _ ih => exact ih.release b
  | stop _ ih => exact ⟨ih.blank, ih.bounded⟩

end Tidy

end LinkState

/-! ## Systems -/

/-- Each action keeps the pool tidy. -/
theorem System.tidy_step (net : Net σ) {y : System σ} (h : y.link.Tidy) (a : Action) :
    (y.step net a).link.Tidy := by
  cases a with
  | submit b => exact h.submit net b
  | acquire => exact h.acquire
  | guard => exact ⟨h.blank, h.bounded⟩
  | dropGuard => exact h.dropGuard net
  | stop => exact h.stop net
  | proceed => exact h.returns (returns_proceed net y)
  | wake r => exact h.returns (returns_wake net y r)

/-- The pool of each reachable link is tidy. -/
theorem Reachable.tidy {w₀ : σ} {y : System σ} (h : Reachable net w₀ y) : y.link.Tidy := by
  induction h with
  | opened hopened =>
    obtain ⟨s, hfresh, rfl⟩ := LinkState.exists_fresh hopened
    cases hfresh <;> exact .of_pool_eq_nil rfl
  | step a _ ih => exact System.tidy_step net ih a

end ArmStream
