/-!
Pairs of runs that come to the same: from states in a relation two programs with state and faults end in
states in that relation, and hand back values in a relation of their own or fail with one fault.
-/
namespace Railroad

variable {ε σ β γ δ ζ : Type}

/-- Runs that have come to values in a relation, or to the same fault, in states in a relation. -/
inductive Ends (Same : σ → σ → Prop) (R : β → γ → Prop) :
    EStateM.Result ε σ β → EStateM.Result ε σ γ → Prop
  | ok {b : β} {c : γ} {s s' : σ} (hvalue : R b c) (hsame : Same s s') :
      Ends Same R (.ok b s) (.ok c s')
  | error (fault : ε) {s s' : σ} (hsame : Same s s') : Ends Same R (.error fault s) (.error fault s')

/-- Runs that end alike whenever they start alike. -/
def RunAlike (Same : σ → σ → Prop) (R : β → γ → Prop) (x : EStateM ε σ β) (y : EStateM ε σ γ) : Prop :=
  ∀ s s', Same s s' → Ends Same R (x s) (y s')

namespace RunAlike

variable {Same : σ → σ → Prop} {R : β → γ → Prop} {S : δ → ζ → Prop}
  {x : EStateM ε σ β} {y : EStateM ε σ γ}

theorem pure {b : β} {c : γ} (h : R b c) : RunAlike (ε := ε) Same R (pure b) (pure c) :=
  fun _ _ hsame => .ok h hsame

theorem bind {f : β → EStateM ε σ δ} {f' : γ → EStateM ε σ ζ} (h : RunAlike Same R x y)
    (hnext : ∀ b c, R b c → RunAlike Same S (f b) (f' c)) : RunAlike Same S (x >>= f) (y >>= f') := by
  intro s s' hsame
  change Ends Same S (EStateM.bind x f s) (EStateM.bind y f' s')
  have hends := h s s' hsame
  rw [EStateM.bind, EStateM.bind]
  generalize x s = result at hends
  generalize y s' = result' at hends
  cases hends with
  | ok hvalue hsame => exact hnext _ _ hvalue _ _ hsame
  | error fault hsame => exact .error fault hsame

theorem get : RunAlike (ε := ε) Same Same get get :=
  fun _ _ hsame => .ok hsame hsame

theorem set {s s' : σ} (h : Same s s') : RunAlike (ε := ε) Same (fun _ _ => True) (set s) (set s') :=
  fun _ _ _ => .ok trivial h

theorem modify {f f' : σ → σ} (h : ∀ s s', Same s s' → Same (f s) (f' s')) :
    RunAlike (ε := ε) Same Eq (modify f) (modify f') :=
  fun s s' hsame => .ok rfl (h s s' hsame)

theorem throw (fault : ε) :
    RunAlike Same R (throw fault : EStateM ε σ β) (throw fault : EStateM ε σ γ) :=
  fun _ _ hsame => .error fault hsame

/-- What would follow a fault does not matter. -/
theorem stop (fault : ε) {f : β → EStateM ε σ δ} {f' : γ → EStateM ε σ ζ} :
    RunAlike Same S (MonadExcept.throw fault >>= f) (MonadExcept.throw fault >>= f') :=
  fun _ _ hsame => .error fault hsame

end RunAlike

end Railroad
