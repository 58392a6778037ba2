import Mathlib.Logic.Basic

/-!
# Stateful calls that may panic

A Rust call reads and changes some shared state and then either returns a
value or unwinds.  A panic does not roll the state back, so an `Action` yields
its final state in both cases.  A `Mutex` is a value with a poison flag: a
panic while the guard is held sets the flag, and every later `lock().unwrap()`
panics in turn.

Parts of a larger state are addressed by a `Lens`; `Action.zoom` runs an action
on the part and leaves the rest alone.
-/

namespace Milona.Foundation

inductive Outcome (α : Type) where
  | returned (value : α)
  | panicked
  deriving DecidableEq, Repr

def Action (σ α : Type) : Type := σ → Outcome α × σ

namespace Action

variable {σ τ α β : Type}

instance : Monad (Action σ) where
  pure value := fun s => (.returned value, s)
  bind x next := fun s =>
    match x s with
    | (.returned value, s') => next value s'
    | (.panicked, s') => (.panicked, s')

/-- Unwind, keeping the state as it is. -/
def panic : Action σ α := fun s => (.panicked, s)

def get : Action σ σ := fun s => (.returned s, s)

def modify (f : σ → σ) : Action σ Unit := fun s => (.returned (), f s)

@[simp] theorem pure_apply (value : α) (s : σ) :
    (pure value : Action σ α) s = (.returned value, s) := rfl

theorem bind_apply (x : Action σ α) (next : α → Action σ β) (s : σ) :
    (x >>= next) s =
      match x s with
      | (.returned value, s') => next value s'
      | (.panicked, s') => (.panicked, s') := rfl

theorem exists_of_outcome {x : Action σ α} {s : σ} {outcome : Outcome α}
    (h : (x s).1 = outcome) : ∃ s', x s = (outcome, s') :=
  ⟨(x s).2, Prod.ext h rfl⟩

@[simp] theorem bind_of_returned {x : Action σ α} {next : α → Action σ β}
    {s s' : σ} {value : α} (h : x s = (.returned value, s')) :
    (x >>= next) s = next value s' := by
  rw [bind_apply, h]

@[simp] theorem bind_of_panicked {x : Action σ α} {next : α → Action σ β}
    {s s' : σ} (h : x s = (.panicked, s')) :
    (x >>= next) s = (.panicked, s') := by
  rw [bind_apply, h]

/-- A sequence that returns consists of two parts that return. -/
theorem returned_bind {x : Action σ α} {next : α → Action σ β} {s s' : σ}
    {result : β} (h : (x >>= next) s = (.returned result, s')) :
    ∃ value middle, x s = (.returned value, middle) ∧
      next value middle = (.returned result, s') := by
  cases hx : x s with
  | mk outcome middle =>
      cases outcome with
      | returned value =>
          rw [bind_of_returned hx] at h
          exact ⟨value, middle, rfl, h⟩
      | panicked =>
          rw [bind_of_panicked hx] at h
          cases h

@[simp] theorem get_bind (next : σ → Action σ β) (s : σ) :
    (get >>= next) s = next s s := rfl

@[simp] theorem pure_bind (value : α) (next : α → Action σ β) :
    (pure value : Action σ α) >>= next = next value := rfl

end Action

/-! ## Parts of a state -/

structure Lens (τ σ : Type) where
  view : τ → σ
  put : σ → τ → τ
  view_put : ∀ part whole, view (put part whole) = part
  put_view : ∀ whole, put (view whole) whole = whole
  put_put : ∀ part part' whole, put part (put part' whole) = put part whole

attribute [simp] Lens.view_put Lens.put_view Lens.put_put

namespace Lens

variable {σ τ υ : Type}

def fst : Lens (σ × τ) σ where
  view := Prod.fst
  put part whole := (part, whole.2)
  view_put _ _ := rfl
  put_view _ := rfl
  put_put _ _ _ := rfl

def snd : Lens (σ × τ) τ where
  view := Prod.snd
  put part whole := (whole.1, part)
  view_put _ _ := rfl
  put_view _ := rfl
  put_put _ _ _ := rfl

def entry [DecidableEq τ] (key : τ) : Lens (τ → σ) σ where
  view whole := whole key
  put part whole := fun k => if k = key then part else whole k
  view_put _ _ := if_pos rfl
  put_view whole := by
    funext k
    split
    · rename_i h
      rw [h]
    · rfl
  put_put part part' whole := by
    funext k
    dsimp only
    split <;> rfl

/-- Parts of the two components of a pair. -/
def prod {υ ρ : Type} (first : Lens τ σ) (second : Lens υ ρ) :
    Lens (τ × υ) (σ × ρ) where
  view whole := (first.view whole.1, second.view whole.2)
  put part whole := (first.put part.1 whole.1, second.put part.2 whole.2)
  view_put _ _ := by simp
  put_view _ := by simp
  put_put _ _ _ := by simp

@[simp] theorem fst_view (whole : σ × τ) : fst.view whole = whole.1 := rfl

@[simp] theorem fst_put (part : σ) (whole : σ × τ) :
    fst.put part whole = (part, whole.2) := rfl

@[simp] theorem snd_view (whole : σ × τ) : snd.view whole = whole.2 := rfl

@[simp] theorem snd_put (part : τ) (whole : σ × τ) :
    snd.put part whole = (whole.1, part) := rfl

end Lens

namespace Action

variable {σ τ α β : Type}

def zoom (lens : Lens τ σ) (x : Action σ α) : Action τ α := fun whole =>
  match x (lens.view whole) with
  | (outcome, part) => (outcome, lens.put part whole)

@[simp] theorem zoom_apply (lens : Lens τ σ) (x : Action σ α) (whole : τ) :
    zoom lens x whole =
      ((x (lens.view whole)).1, lens.put (x (lens.view whole)).2 whole) := rfl

theorem zoom_of_unchanged {lens : Lens τ σ} {x : Action σ α} {whole : τ}
    {outcome : Outcome α}
    (h : x (lens.view whole) = (outcome, lens.view whole)) :
    zoom lens x whole = (outcome, whole) := by
  rw [zoom_apply, h, Lens.put_view]

@[simp] theorem zoom_pure (lens : Lens τ σ) (value : α) :
    zoom lens (pure value : Action σ α) = pure value := by
  funext whole
  simp

@[simp] theorem zoom_panic (lens : Lens τ σ) :
    zoom lens (panic : Action σ α) = panic := by
  funext whole
  simp [panic]

theorem zoom_bind (lens : Lens τ σ) (x : Action σ α) (next : α → Action σ β) :
    zoom lens (x >>= next) = zoom lens x >>= fun value =>
      zoom lens (next value) := by
  funext whole
  rw [zoom_apply, bind_apply, bind_apply, zoom_apply]
  rcases x (lens.view whole) with ⟨value | _, part⟩
  · simp
  · simp

end Action

/-! ## Locks -/

structure Mutex (α : Type) where
  value : α
  poisoned : Bool
  deriving DecidableEq, Repr

namespace Mutex

variable {α β : Type}

def new (value : α) : Mutex α := ⟨value, false⟩

/--
`lock().unwrap()` followed by `body` with the guard held to its end.  Meeting
the poison flag panics before `body` starts; a panic of `body` sets it.
-/
def lock (body : Action α β) : Action (Mutex α) β := fun m =>
  if m.poisoned then (.panicked, m)
  else
    match body m.value with
    | (.returned value, state) => (.returned value, ⟨state, false⟩)
    | (.panicked, state) => (.panicked, ⟨state, true⟩)

@[simp] theorem lock_poisoned (body : Action α β) {m : Mutex α}
    (h : m.poisoned = true) : lock body m = (.panicked, m) := by
  simp [lock, h]

end Mutex

end Milona.Foundation
