import Mathlib.Logic.Basic
import Mathlib.Order.Basic

/-!
# Procedures with state, exceptions and calls that never return

`Proc ε σ α` is a computation over a state `σ` that ends in one of three ways:

* it **returns** a value;
* it **raises** an exception `ε`, keeping every state change made before the raise (as C++ and
  Python do, unlike a transactional `Except`);
* it is **stuck**: a deadlock, a loop that outlives its bound, or undefined behaviour. Nothing
  runs after it, so `bind` and `tryCatch` both let it through.

`wp` is what holds however a computation ends, with one rule for each way to put computations
together. Besides the monad there are the two control structures the programs below need: `collect`, a
`while` loop whose passes push to an output list, with its total-correctness rule
`collect_returns`; and `withLock`, a non-reentrant lock held for the duration of a block.
-/

namespace FlowManager.Lib

/-- How a computation ends: the state it leaves is kept in every case. -/
inductive Outcome (ε σ α : Type) where
  | returned (a : α) (s : σ)
  | raised (e : ε) (s : σ)
  | stuck (s : σ)
  deriving DecidableEq

namespace Outcome

variable {ε σ α β : Type}

/-- The state at the end, however the computation ended. -/
def state : Outcome ε σ α → σ
  | returned _ s => s
  | raised _ s => s
  | stuck s => s

/-- The same ending, with the state seen through a map. -/
def map {τ : Type} (f : σ → τ) : Outcome ε σ α → Outcome ε τ α
  | returned a s => returned a (f s)
  | raised e s => raised e (f s)
  | stuck s => stuck (f s)

/-- Continue a computation that returned; an exception or a stuck run passes through. -/
def bind (o : Outcome ε σ α) (f : α → σ → Outcome ε σ β) : Outcome ε σ β :=
  match o with
  | returned a s => f a s
  | raised e s => raised e s
  | stuck s => stuck s

/-- What has returned goes on. -/
@[simp] theorem bind_returned (a : α) (s : σ) (f : α → σ → Outcome ε σ β) :
    (returned a s).bind f = f a s := rfl

/-- What has raised does not go on. -/
@[simp] theorem bind_raised (e : ε) (s : σ) (f : α → σ → Outcome ε σ β) :
    (raised e s : Outcome ε σ α).bind f = raised e s := rfl

/-- What is stuck does not go on. -/
@[simp] theorem bind_stuck (s : σ) (f : α → σ → Outcome ε σ β) :
    (stuck s : Outcome ε σ α).bind f = stuck s := rfl

/-- A bind returns only through a first part that returned. -/
theorem bind_eq_returned {o : Outcome ε σ α} {f : α → σ → Outcome ε σ β} {b : β} {s' : σ} :
    o.bind f = returned b s' ↔ ∃ a s, o = returned a s ∧ f a s = returned b s' := by
  cases o with
  | returned a s =>
      constructor
      · intro h
        exact ⟨a, s, rfl, h⟩
      · rintro ⟨_, _, h, hf⟩
        cases h
        exact hf
  | raised e s => simp
  | stuck s => simp

end Outcome

/-- A procedure over the state `σ`. -/
structure Proc (ε σ α : Type) where
  /-- Run the procedure from a state. -/
  run : σ → Outcome ε σ α

namespace Proc

variable {ε σ α β τ : Type}

/-- Processes in sequence: the second runs on the state that the first has left. -/
instance : Monad (Proc ε σ) where
  pure a := ⟨fun s => .returned a s⟩
  bind x f := ⟨fun s => (x.run s).bind fun a s' => (f a).run s'⟩

/-- Read the state. -/
def get : Proc ε σ σ := ⟨fun s => .returned s s⟩

/-- Change the state. -/
def modify (f : σ → σ) : Proc ε σ Unit := ⟨fun s => .returned () (f s)⟩

/-- Raise an exception. -/
def raise (e : ε) : Proc ε σ α := ⟨fun s => .raised e s⟩

/-- Never return. -/
def stuck : Proc ε σ α := ⟨fun s => .stuck s⟩

/-- Handle the exceptions of `x`. -/
def tryCatch (x : Proc ε σ α) (handler : ε → Proc ε σ α) : Proc ε σ α :=
  ⟨fun s => match x.run s with
    | .returned a s' => .returned a s'
    | .raised e s' => (handler e).run s'
    | .stuck s' => .stuck s'⟩

/-- `pure` returns and leaves the state. -/
@[simp] theorem run_pure (a : α) (s : σ) : (pure a : Proc ε σ α).run s = .returned a s := rfl

/-- A sequence runs its first part, and the second on what that has left. -/
@[simp] theorem run_bind (x : Proc ε σ α) (f : α → Proc ε σ β) (s : σ) :
    (x >>= f).run s = (x.run s).bind fun a s' => (f a).run s' := rfl

/-- `get` returns the state. -/
@[simp] theorem run_get (s : σ) : (get : Proc ε σ σ).run s = .returned s s := rfl

/-- `modify` writes the state. -/
@[simp] theorem run_modify (f : σ → σ) (s : σ) :
    (modify f : Proc ε σ Unit).run s = .returned () (f s) := rfl

/-- `raise` raises and leaves the state. -/
@[simp] theorem run_raise (e : ε) (s : σ) : (raise e : Proc ε σ α).run s = .raised e s := rfl

/-- `stuck` gets stuck. -/
@[simp] theorem run_stuck (s : σ) : (stuck : Proc ε σ α).run s = .stuck s := rfl

/-- A process that depends on a condition. -/
@[simp] theorem run_ite (c : Prop) [Decidable c] (x y : Proc ε σ α) (s : σ) :
    (if c then x else y).run s = if c then x.run s else y.run s :=
  apply_ite (fun p : Proc ε σ α => p.run s) c x y

/-! ## A procedure on a part of the state -/

/-- Run a procedure on a part of the state, with its exceptions renamed. -/
def focus {ε' : Type} (part : σ → τ) (setPart : τ → σ → σ) (rename : ε → ε')
    (x : Proc ε τ α) : Proc ε' σ α :=
  ⟨fun s => match x.run (part s) with
    | .returned a t => .returned a (setPart t s)
    | .raised e t => .raised (rename e) (setPart t s)
    | .stuck t => .stuck (setPart t s)⟩

/-- A part that returns, returns in the whole. -/
theorem run_focus_of_returned {ε' : Type} {part : σ → τ} {setPart : τ → σ → σ}
    {rename : ε → ε'} {x : Proc ε τ α} {s : σ} {a : α} {t : τ}
    (h : x.run (part s) = .returned a t) :
    (focus part setPart rename x).run s = .returned a (setPart t s) := by
  simp [focus, h]

/-- What returns in the whole has returned in the part. -/
theorem run_focus_eq_returned {ε' : Type} {part : σ → τ} {setPart : τ → σ → σ}
    {rename : ε → ε'} {x : Proc ε τ α} {s s' : σ} {a : α}
    (h : (focus part setPart rename x).run s = .returned a s') :
    ∃ t, x.run (part s) = .returned a t ∧ s' = setPart t s := by
  unfold focus at h
  rcases hx : x.run (part s) with ⟨b, t⟩ | ⟨e, t⟩ | t
  · simp only [hx, Outcome.returned.injEq] at h
    obtain ⟨rfl, rfl⟩ := h
    exact ⟨t, rfl, rfl⟩
  · simp [hx] at h
  · simp [hx] at h

/-! ## Postconditions -/

section wp

variable {x : Proc ε σ α} {Q Q' : α → σ → Prop} {R R' : ε → σ → Prop} {S S' : σ → Prop} {s : σ}

/-- However the procedure ends from a state, the postcondition for that ending holds: `Q` for a
return, `R` for an exception and `S` for a run that never returns. -/
def wp (x : Proc ε σ α) (Q : α → σ → Prop) (R : ε → σ → Prop) (S : σ → Prop) (s : σ) : Prop :=
  match x.run s with
  | .returned a s' => Q a s'
  | .raised e s' => R e s'
  | .stuck s' => S s'

/-- `pure` establishes what holds of the value and the state. -/
@[simp] theorem wp_pure (a : α) : wp (pure a : Proc ε σ α) Q R S s ↔ Q a s := Iff.rfl

/-- `get` establishes what holds of the state. -/
@[simp] theorem wp_get {Q : σ → σ → Prop} : wp (get : Proc ε σ σ) Q R S s ↔ Q s s := Iff.rfl

/-- `modify` establishes what holds of the state that it writes. -/
@[simp] theorem wp_modify {Q : Unit → σ → Prop} (f : σ → σ) :
    wp (modify f : Proc ε σ Unit) Q R S s ↔ Q () (f s) := Iff.rfl

/-- `raise` establishes what holds of the exception. -/
@[simp] theorem wp_raise (e : ε) : wp (raise e : Proc ε σ α) Q R S s ↔ R e s := Iff.rfl

/-- A sequence establishes what its first part leaves for the second to establish. -/
@[simp] theorem wp_bind {Q : β → σ → Prop} (f : α → Proc ε σ β) :
    wp (x >>= f) Q R S s ↔ wp x (fun a => wp (f a) Q R S) R S s := by
  unfold wp
  rw [run_bind]
  cases x.run s <;> rfl

/-- A process on a part establishes what it establishes of the whole. -/
theorem wp_focus {ε' : Type} {part : σ → τ} {setPart : τ → σ → σ} {rename : ε → ε'}
    {x : Proc ε τ α} {R : ε' → σ → Prop} : wp (focus part setPart rename x) Q R S s ↔
      wp x (fun a t => Q a (setPart t s)) (fun e t => R (rename e) (setPart t s))
        (fun t => S (setPart t s)) (part s) := by
  unfold wp focus
  dsimp only
  cases x.run (part s) <;> rfl

/-- Weaker postconditions hold too. -/
theorem wp_mono (h : wp x Q R S s) (hQ : ∀ a s', Q a s' → Q' a s') (hR : ∀ e s', R e s' → R' e s')
    (hS : ∀ s', S s' → S' s') : wp x Q' R' S' s := by
  unfold wp at h ⊢
  cases hrun : x.run s with
  | returned a s' =>
      rw [hrun] at h
      exact hQ a s' h
  | raised e s' =>
      rw [hrun] at h
      exact hR e s' h
  | stuck s' =>
      rw [hrun] at h
      exact hS s' h

/-- What a process establishes holds where it has returned. -/
theorem wp.returned (h : wp x Q R S s) {a : α} {s' : σ} (hrun : x.run s = .returned a s') :
    Q a s' := by
  unfold wp at h
  rwa [hrun] at h

/-- What a process establishes holds where it has raised. -/
theorem wp.raised (h : wp x Q R S s) {e : ε} {s' : σ} (hrun : x.run s = .raised e s') :
    R e s' := by
  unfold wp at h
  rwa [hrun] at h

/-- What holds at every ending holds at the end. -/
theorem wp.state {P : σ → Prop} (h : wp x (fun _ => P) (fun _ => P) P s) : P (x.run s).state := by
  unfold wp at h
  cases hrun : x.run s <;> rw [hrun] at h <;> exact h

end wp

/-! ## What a procedure keeps -/

section keeps

variable {I : σ → Prop} {x : Proc ε σ α}

/-- However the procedure ends, it leaves what it has found. -/
def Keeps (I : σ → Prop) (x : Proc ε σ α) : Prop :=
  ∀ s, I s → wp x (fun _ => I) (fun _ => I) I s

/-- `pure` keeps every invariant. -/
theorem keeps_pure (a : α) : Keeps I (pure a : Proc ε σ α) := fun _ h => h

/-- `get` keeps every invariant. -/
theorem keeps_get : Keeps I (get : Proc ε σ σ) := fun _ h => h

/-- `raise` keeps every invariant. -/
theorem keeps_raise (e : ε) : Keeps I (raise e : Proc ε σ α) := fun _ h => h

/-- A write keeps what it keeps. -/
theorem keeps_modify {f : σ → σ} (hf : ∀ s, I s → I (f s)) : Keeps I (modify f : Proc ε σ Unit) := hf

/-- A sequence keeps what both parts keep. -/
theorem Keeps.bind {f : α → Proc ε σ β} (hx : Keeps I x) (hf : ∀ a, Keeps I (f a)) :
    Keeps I (x >>= f) := by
  intro s h
  rw [wp_bind]
  exact wp_mono (hx s h) (fun a s' h' => hf a s' h') (fun _ _ h' => h') fun _ h' => h'

end keeps

/-! ## Forgetting a part of the state -/

section runsAs

variable {f : σ → τ} {x : Proc ε σ α} {y : Proc ε τ α}

/-- Seen through `f`, the one procedure runs as the other. -/
def RunsAs (f : σ → τ) (x : Proc ε σ α) (y : Proc ε τ α) : Prop :=
  ∀ s, (x.run s).map f = y.run (f s)

/-- `pure` runs as itself. -/
theorem runsAs_pure (a : α) : RunsAs f (pure a : Proc ε σ α) (pure a) := fun _ => rfl

/-- `raise` runs as itself. -/
theorem runsAs_raise (e : ε) : RunsAs f (raise e : Proc ε σ α) (raise e) := fun _ => rfl

/-- Writes that correspond run as each other. -/
theorem runsAs_modify {u : σ → σ} {v : τ → τ} (h : ∀ s, f (u s) = v (f s)) :
    RunsAs f (modify u : Proc ε σ Unit) (modify v) := by
  intro s
  simp [Outcome.map, h]

/-- Sequences of parts that run as each other run as each other. -/
theorem RunsAs.bind {g : α → Proc ε σ β} {k : α → Proc ε τ β} (hxy : RunsAs f x y)
    (hgk : ∀ a, RunsAs f (g a) (k a)) : RunsAs f (x >>= g) (y >>= k) := by
  intro s
  rw [run_bind, run_bind, ← hxy s]
  rcases x.run s with ⟨a, s'⟩ | ⟨e, s'⟩ | s'
  · exact hgk a s'
  · rfl
  · rfl

/-- What is read is the same, seen through `f`. -/
theorem runsAs_get_bind {g : σ → Proc ε σ α} {k : τ → Proc ε τ α}
    (h : ∀ s, RunsAs f (g s) (k (f s))) : RunsAs f (get >>= g) (get >>= k) := by
  intro s
  simpa using h s s

/-- Branches that run as each other run as each other. -/
theorem RunsAs.ite {c : Prop} [Decidable c] {x' : Proc ε σ α} {y' : Proc ε τ α}
    (h : RunsAs f x y) (h' : RunsAs f x' y') :
    RunsAs f (if c then x else x') (if c then y else y') := by
  split_ifs
  · exact h
  · exact h'

/-- Where the one returns, the other does. -/
theorem RunsAs.returned (h : RunsAs f x y) {s s' : σ} {a : α} (hrun : x.run s = .returned a s') :
    y.run (f s) = .returned a (f s') := by
  rw [← h s, hrun]
  rfl

end runsAs

/-! ## Loops that collect output -/

/-- Repeat `body` until it answers `none`, appending what its passes push. The source's `while`
has no bound; running out of `fuel` is the stuck outcome, so a proof that the loop returns is a
proof that it terminates. -/
def collect : ℕ → Proc ε σ (Option (List τ)) → Proc ε σ (List τ)
  | 0, _ => stuck
  | fuel + 1, body => do
      match ← body with
      | none => pure []
      | some out => do
          let rest ← collect fuel body
          pure (out ++ rest)

/-- What a sequence of passes does: each pass relates its start, its output and its end. -/
inductive Trace (Pass : σ → List τ → σ → Prop) : σ → List τ → σ → Prop
  | nil (s : σ) : Trace Pass s [] s
  | cons {s s' s'' : σ} {out rest : List τ} :
      Pass s out s' → Trace Pass s' rest s'' → Trace Pass s (out ++ rest) s''

/-- **Total correctness of `collect`.** If every pass from a state of the invariant either exits
without touching the state or keeps the invariant and decreases the measure `μ`, then with fuel
above `μ` the loop returns, the invariant holds at the end, and its output is that of a trace
of passes. -/
theorem collect_returns {Inv Exit : σ → Prop} {Pass : σ → List τ → σ → Prop} {μ : σ → ℕ}
    {body : Proc ε σ (Option (List τ))}
    (hbody : ∀ s, Inv s → (body.run s = .returned none s ∧ Exit s) ∨
      ∃ out s', body.run s = .returned (some out) s' ∧ Inv s' ∧ μ s' < μ s ∧ Pass s out s') :
    ∀ (fuel : ℕ) (s : σ), Inv s → μ s < fuel →
      ∃ out s', (collect fuel body).run s = .returned out s' ∧ Inv s' ∧ Exit s' ∧
        Trace Pass s out s' := by
  intro fuel
  induction fuel with
  | zero => intro s _ hμ; omega
  | succ fuel ih =>
      intro s hs hμ
      rcases hbody s hs with ⟨hrun, hexit⟩ | ⟨out, s', hrun, hs', hlt, hpass⟩
      · exact ⟨[], s, by simp [collect, hrun], hs, hexit, .nil s⟩
      · obtain ⟨rest, s'', hrest, hs'', hexit, htrace⟩ := ih s' hs' (by omega)
        refine ⟨out ++ rest, s'', ?_, hs'', hexit, .cons hpass htrace⟩
        simp [collect, hrun, hrest]

/-- **What a loop has done when it has returned**: a sequence of passes, and a last one that
exits. -/
theorem collect_eq_returned {body : Proc ε σ (Option (List τ))} {fuel : ℕ} {s s' : σ}
    {out : List τ} (h : (collect fuel body).run s = .returned out s') :
    ∃ t, Trace (fun s out s' => body.run s = .returned (some out) s') s out t ∧
      body.run t = .returned none s' := by
  induction fuel generalizing s out with
  | zero => cases h
  | succ fuel ih =>
      rw [collect, run_bind, Outcome.bind_eq_returned] at h
      obtain ⟨r, s₁, hbody, hrest⟩ := h
      cases r with
      | none =>
          rw [run_pure, Outcome.returned.injEq] at hrest
          obtain ⟨rfl, rfl⟩ := hrest
          exact ⟨s, .nil s, hbody⟩
      | some first =>
          dsimp only at hrest
          rw [run_bind, Outcome.bind_eq_returned] at hrest
          obtain ⟨rest, s₂, hloop, hpure⟩ := hrest
          rw [run_pure, Outcome.returned.injEq] at hpure
          obtain ⟨rfl, rfl⟩ := hpure
          obtain ⟨t, htrace, hexit⟩ := ih hloop
          exact ⟨t, .cons hbody htrace, hexit⟩

/-- What every pass does from a state of an invariant, the passes of a trace do. -/
theorem Trace.imp {Inv : σ → Prop} {Pass Pass' : σ → List τ → σ → Prop}
    (hpass : ∀ s out s', Inv s → Pass s out s' → Pass' s out s' ∧ Inv s') {s s' : σ}
    {out : List τ} (h : Trace Pass s out s') (hs : Inv s) : Trace Pass' s out s' ∧ Inv s' := by
  induction h with
  | nil s => exact ⟨.nil s, hs⟩
  | cons hstep _ ih =>
      obtain ⟨hstep', hmid⟩ := hpass _ _ _ hs hstep
      obtain ⟨htrace, hend⟩ := ih hmid
      exact ⟨.cons hstep' htrace, hend⟩

/-- Output that every pass pays for out of a measure is paid for by the whole trace. -/
theorem Trace.length_add_le {Pass : σ → List τ → σ → Prop} {μ : σ → ℕ}
    (hpass : ∀ s out s', Pass s out s' → out.length + μ s' ≤ μ s) {s s' : σ} {out : List τ}
    (h : Trace Pass s out s') : out.length + μ s' ≤ μ s := by
  induction h with
  | nil s => exact Nat.le_of_eq (Nat.zero_add _)
  | cons hstep _ ih =>
      have hfirst := hpass _ _ _ hstep
      rw [List.length_append]
      omega

/-! ## A non-reentrant lock -/

/-- Where a state keeps a lock: whether it is held, and how to set that. -/
structure LockField (σ : Type) where
  /-- The lock is held. -/
  held : σ → Bool
  /-- Set whether the lock is held. -/
  setHeld : Bool → σ → σ
  /-- What is set is what is read. -/
  held_setHeld : ∀ b s, held (setHeld b s) = b

/-- Run `body` holding the lock. Acquiring a lock the same thread already holds never returns;
the lock is released when the block ends, also by an exception. -/
def withLock (L : LockField σ) (body : Proc ε σ α) : Proc ε σ α :=
  ⟨fun s =>
    if L.held s then .stuck s
    else match body.run (L.setHeld true s) with
      | .returned a s' => .returned a (L.setHeld false s')
      | .raised e s' => .raised e (L.setHeld false s')
      | .stuck s' => .stuck s'⟩

/-- A process under a lock establishes what its body does once the lock is free again; it is stuck
if the lock is taken. -/
theorem wp_withLock {L : LockField σ} {body : Proc ε σ α} {Q : α → σ → Prop} {R : ε → σ → Prop}
    {S : σ → Prop} {s : σ} : wp (withLock L body) Q R S s ↔
      if L.held s then S s
      else wp body (fun a s' => Q a (L.setHeld false s')) (fun e s' => R e (L.setHeld false s')) S
        (L.setHeld true s) := by
  unfold wp withLock
  dsimp only
  split_ifs
  · exact Iff.rfl
  · cases body.run (L.setHeld true s) <;> exact Iff.rfl

/-- A process under a lock keeps what its body keeps. -/
theorem Keeps.withLock {L : LockField σ} {I : σ → Prop} {body : Proc ε σ α}
    (hset : ∀ b s, I s → I (L.setHeld b s)) (hbody : Keeps I body) :
    Keeps I (Proc.withLock L body) := by
  intro s h
  rw [wp_withLock]
  split_ifs
  · exact h
  · exact wp_mono (hbody _ (hset true s h)) (fun _ _ h' => hset false _ h')
      (fun _ _ h' => hset false _ h') fun _ h' => h'

end Proc

end FlowManager.Lib
