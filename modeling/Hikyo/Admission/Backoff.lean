import Hikyo.Lib.Transactions

/-!
# The delay of an account

Before a caller is known, the limiter delays the attempts on a presented account after five
consecutive failures, by twice as long each time up to a minute. One node keeps the deadline
of each account in memory. On several nodes the deadline is not stored: it is computed from
a shared count of failures and the stamp of the last one. The two answer alike
(`shared_backoff_agrees`), through resets and past the cap, because a stored deadline is the
one that the count and the stamp give (`SameDelay`).

Instants are nanoseconds since Go's zero time, which is the instant `0`. Which accounts a full
memory drops before it tracks another one is an input.
-/

namespace Hikyo.Admission

variable {κ : Type}

def second : ℕ := 1000000000
def failuresBeforeBackoff : ℕ := 5
def maxAccountBackoff : ℕ := 60 * second

/-- The delay after a number of consecutive failures. -/
def backoffDelay (failures : ℕ) : ℕ :=
  if failures ≤ failuresBeforeBackoff then 0
  else min (2 ^ min (failures - failuresBeforeBackoff - 1) 16 * second) maxAccountBackoff

/-- A call about an account; the key is the hash of what was presented. -/
inductive AccountOp (κ : Type) where
  | accountDelay (key : κ)
  | recordFailure (key : κ) (evicted : κ → Bool)
  | recordSuccess (key : κ)

/-- What a call answers: a delay, whether the threshold was crossed, or nothing. -/
inductive Answer where
  | delay (d : ℕ)
  | crossed (b : Bool)
  | done
deriving DecidableEq, Repr

/-! ## In memory -/

/-- `accountBackoff`. The deadline is Go's `until`; the zero time means that no delay has been
set. -/
structure AccountBackoff where
  failures : ℕ
  deadline : ℕ

/-- The accounts that are tracked. -/
abbrev Accounts (κ : Type) := κ → Option AccountBackoff

def accountDelay (accounts : Accounts κ) (key : κ) (now : ℕ) : ℕ :=
  match accounts key with
  | none => 0
  | some state => if state.deadline = 0 then 0 else state.deadline - now

/-- One more failure of an account. -/
def AccountBackoff.fail (state : AccountBackoff) (now : ℕ) : AccountBackoff :=
  let n := state.failures + 1
  if n ≤ failuresBeforeBackoff then { state with failures := n }
  else
    let delay := 2 ^ min (n - failuresBeforeBackoff - 1) 16 * second
    ⟨n, now + min delay maxAccountBackoff⟩

def recordFailure [DecidableEq κ] (accounts : Accounts κ) (key : κ) (evicted : κ → Bool) (now : ℕ) :
    Bool × Accounts κ :=
  let state := (accounts key).getD ⟨0, 0⟩
  let accounts := fun k => if evicted k then none else accounts k
  (state.failures + 1 = failuresBeforeBackoff + 1,
    Function.update accounts key (some (state.fail now)))

/-- **A call at an instant, in memory.** -/
def localStep [DecidableEq κ] (accounts : Accounts κ) : ℕ × AccountOp κ → Answer × Accounts κ
  | (now, .accountDelay key) => (.delay (accountDelay accounts key now), accounts)
  | (now, .recordFailure key evicted) =>
    let r := recordFailure accounts key evicted now
    (.crossed r.1, r.2)
  | (_, .recordSuccess key) => (.done, Function.update accounts key none)

/-! ## On the shared store -/

/-- A row of the shared store: the consecutive failures and the instant of the last. -/
structure SharedFailures where
  failures : ℕ
  lastFailure : ℕ

def sharedAccountDelay (rows : κ → Option SharedFailures) (key : κ) (now : ℕ) : ℕ :=
  match rows key with
  | none => 0
  | some r => r.lastFailure + backoffDelay r.failures - now

/-- **A call at an instant, on the shared store**, which counts, stamps and clears a row in
one step. -/
def sharedStep [DecidableEq κ] (rows : κ → Option SharedFailures) :
    ℕ × AccountOp κ → Answer × (κ → Option SharedFailures)
  | (now, .accountDelay key) => (.delay (sharedAccountDelay rows key now), rows)
  | (now, .recordFailure key _) =>
    let failures := ((rows key).map (·.failures)).getD 0 + 1
    (.crossed (failures = failuresBeforeBackoff + 1),
      Function.update rows key (some ⟨failures, now⟩))
  | (_, .recordSuccess key) => (.done, Function.update rows key none)

/-! ## Side by side -/

/-- The two paths, under one clock. -/
structure Paths (κ : Type) where
  clock : ℕ
  accounts : Accounts κ
  rows : κ → Option SharedFailures

def Paths.empty : Paths κ := ⟨0, fun _ => none, fun _ => none⟩

def Paths.step [DecidableEq κ] (p : Paths κ) (op : ℕ × AccountOp κ) : Paths κ :=
  ⟨op.1, (localStep p.accounts op).2, (sharedStep p.rows op).2⟩

/-- The clock does not go back, and no account is evicted. -/
def Paths.Quiet (p : Paths κ) (op : ℕ × AccountOp κ) : Prop :=
  p.clock ≤ op.1 ∧ ∀ key evicted, op.2 = .recordFailure key evicted → evicted = fun _ => false

/-- **The stored deadline is the one the shared path computes**, once there is a delay. -/
inductive SameDelay (clock : ℕ) : Option AccountBackoff → Option SharedFailures → Prop
  | untracked : SameDelay clock none none
  | tracked {n last : ℕ} (hpast : last ≤ clock) :
    SameDelay clock (some ⟨n, if n ≤ failuresBeforeBackoff then 0 else last + backoffDelay n⟩)
      (some ⟨n, last⟩)

variable {now : ℕ}

theorem AccountBackoff.fail_eq {n d : ℕ} (hd : n ≤ failuresBeforeBackoff → d = 0) :
    (AccountBackoff.mk n d).fail now =
      ⟨n + 1, if n + 1 ≤ failuresBeforeBackoff then 0 else now + backoffDelay (n + 1)⟩ := by
  unfold AccountBackoff.fail backoffDelay
  dsimp only
  split
  case isTrue h => rw [hd (Nat.le_of_succ_le h)]
  case isFalse => rfl

section SameDelay

variable {clock now : ℕ} {a : Option AccountBackoff} {r : Option SharedFailures}

theorem SameDelay.later (h : SameDelay clock a r) (hle : clock ≤ now) : SameDelay now a r := by
  cases h with
  | untracked => exact .untracked
  | tracked hpast => exact .tracked (hpast.trans hle)

/-- One more failure, on both sides. -/
theorem SameDelay.fail (h : SameDelay clock a r) :
    (a.getD ⟨0, 0⟩).failures = (r.map (·.failures)).getD 0 ∧
      SameDelay now (some ((a.getD ⟨0, 0⟩).fail now))
        (some ⟨(r.map (·.failures)).getD 0 + 1, now⟩) := by
  cases h with
  | untracked =>
    refine ⟨rfl, ?_⟩
    rw [Option.getD_none, AccountBackoff.fail_eq fun _ => rfl]
    exact .tracked le_rfl
  | tracked hpast =>
    refine ⟨rfl, ?_⟩
    rw [Option.getD_some, AccountBackoff.fail_eq fun hle => if_pos hle]
    exact .tracked le_rfl

end SameDelay

variable {accounts : Accounts κ} {rows : κ → Option SharedFailures}

/-- Below the threshold the shared deadline is the last failure, which is over. -/
theorem SameDelay.delay_eq {clock : ℕ} {key : κ} (h : SameDelay clock (accounts key) (rows key))
    (hle : clock ≤ now) : accountDelay accounts key now = sharedAccountDelay rows key now := by
  unfold accountDelay sharedAccountDelay
  generalize accounts key = a at h ⊢
  generalize rows key = r at h ⊢
  cases h with
  | untracked => rfl
  | @tracked n last hpast =>
    dsimp only
    by_cases hn : n ≤ failuresBeforeBackoff
    · rw [if_pos hn, if_pos rfl, backoffDelay, if_pos hn]
      omega
    · rw [if_neg hn]
      split <;> omega

/-- **The two paths hold the same delays.** -/
def Paths.Same (p : Paths κ) : Prop := ∀ key, SameDelay p.clock (p.accounts key) (p.rows key)

/-- One account moves on, on both sides. -/
theorem SameDelay.update [DecidableEq κ] {k : κ} {a : Option AccountBackoff}
    {r : Option SharedFailures} (hk : SameDelay now a r)
    (h : ∀ key, SameDelay now (accounts key) (rows key)) (key : κ) :
    SameDelay now (Function.update accounts k a key) (Function.update rows k r key) := by
  by_cases hkey : key = k
  · subst hkey
    rw [Function.update_self, Function.update_self]
    exact hk
  · rw [Function.update_of_ne hkey, Function.update_of_ne hkey]
    exact h key

theorem Paths.Same.step [DecidableEq κ] {p : Paths κ} {op : ℕ × AccountOp κ} (h : p.Same)
    (hop : p.Quiet op) : (p.step op).Same := by
  obtain ⟨now, op⟩ := op
  have hlater := fun key => (h key).later hop.1
  cases op with
  | accountDelay k => exact hlater
  | recordFailure k evicted =>
    obtain rfl := hop.2 k evicted rfl
    exact (h k).fail.2.update hlater
  | recordSuccess k => exact SameDelay.untracked.update hlater

/-- **In memory and on the shared store the delays agree.** In every run of calls with one
clock that does not go back, in which no account is evicted, the next call answers on the
shared store what it answers in memory. -/
theorem shared_backoff_agrees (κ : Type) [DecidableEq κ] (ops : List (ℕ × AccountOp κ))
    (hops : Tx.Along Paths.step Paths.Quiet .empty ops) (p : Paths κ)
    (hp : Tx.exec Paths.step .empty ops = p) (now : ℕ) (op : AccountOp κ)
    (hop : p.Quiet (now, op)) :
    (localStep p.accounts (now, op)).1 = (sharedStep p.rows (now, op)).1 := by
  have hsame : p.Same := hp ▸ Tx.exec_invariant_along Paths.Quiet Paths.Same
    (fun p op hop h => h.step hop) ops .empty hops fun _ => .untracked
  cases op with
  | accountDelay k => exact congrArg Answer.delay ((hsame k).delay_eq hop.1)
  | recordFailure k evicted =>
    obtain ⟨hfailures, -⟩ : _ ∧ SameDelay now _ _ := (hsame k).fail
    show Answer.crossed _ = Answer.crossed _
    rw [← hfailures]
    rfl
  | recordSuccess k => rfl

/-- After the sixth failure in a row the account waits a second. -/
theorem shared_backoff_agrees_sixth :
    let p := Tx.exec Paths.step .empty (List.replicate 6 (7, .recordFailure 0 fun _ => false))
    (sharedStep p.rows (7, .accountDelay 0)).1 = .delay second ∧
      (localStep p.accounts (7, .accountDelay 0)).1 =
        (sharedStep p.rows (7, .accountDelay 0)).1 := by
  intro p
  have hops : Tx.Along Paths.step Paths.Quiet .empty
      (List.replicate 6 (7, AccountOp.recordFailure 0 fun _ => false)) := by
    refine ⟨⟨?_, ?_⟩, ⟨?_, ?_⟩, ⟨?_, ?_⟩, ⟨?_, ?_⟩, ⟨?_, ?_⟩, ⟨?_, ?_⟩, trivial⟩
    all_goals first | decide | rintro _ _ ⟨⟩; rfl
  exact ⟨by decide, shared_backoff_agrees ℕ _ hops p rfl 7 _ ⟨le_rfl, nofun⟩⟩

/-! ## Whose failures delay an account -/

section Earned

variable [DecidableEq κ]

/-- The call records a failure of the account. -/
def fails (key : κ) : ℕ × AccountOp κ → Bool
  | (_, .recordFailure k _) => k = key
  | _ => false

/-- The failures of an account are in the run, and its deadline comes from one of them. -/
def Earned (ops : List (ℕ × AccountOp κ)) (key : κ) (state : AccountBackoff) : Prop :=
  state.failures ≤ ops.countP (fails key) ∧ (state.deadline = 0 ∨
    failuresBeforeBackoff < state.failures ∧
      ∃ op ∈ ops, fails key op ∧ state.deadline ≤ op.1 + maxAccountBackoff)

variable {ops : List (ℕ × AccountOp κ)} {key : κ} {state : AccountBackoff}

theorem Earned.mono (h : Earned ops key state) (op : ℕ × AccountOp κ) :
    Earned (ops ++ [op]) key state := by
  refine ⟨h.1.trans (List.sublist_append_left ops [op]).countP_le, h.2.imp id fun hd => ?_⟩
  obtain ⟨hmany, op', hop', hrest⟩ := hd
  exact ⟨hmany, op', List.mem_append_left _ hop', hrest⟩

theorem Earned.fail (h : Earned ops key state) (evicted : κ → Bool) :
    Earned (ops ++ [(now, .recordFailure key evicted)]) key (state.fail now) := by
  have hcount : state.failures + 1 ≤
      (ops ++ [(now, AccountOp.recordFailure key evicted)]).countP (fails key) := by
    simpa [fails] using h.1
  unfold AccountBackoff.fail
  dsimp only
  split
  case isTrue hfew =>
    exact ⟨hcount, .inl (h.2.resolve_right fun hd => absurd hd.1 (by omega))⟩
  case isFalse hmany =>
    refine ⟨hcount, .inr ⟨not_le.mp hmany, _, List.mem_append_right _ List.mem_cons_self,
      decide_eq_true rfl, ?_⟩⟩
    exact Nat.add_le_add_left (min_le_right _ _) now

/-- A call leaves an account as it is, drops it, or adds a failure to it. -/
theorem localStep_eq_some {op : AccountOp κ} (h : (localStep accounts (now, op)).2 key = some state) :
    accounts key = some state ∨ ∃ evicted, op = .recordFailure key evicted ∧
      ((accounts key).getD ⟨0, 0⟩).fail now = state := by
  cases op with
  | accountDelay k => exact .inl h
  | recordFailure k evicted =>
    simp only [localStep, recordFailure, Function.update_apply] at h
    split at h
    case isTrue hkey =>
      subst hkey
      exact .inr ⟨evicted, rfl, Option.some.inj h⟩
    case isFalse => exact .inl (Option.ite_none_left_eq_some.mp h).2
  | recordSuccess k =>
    simp only [localStep, Function.update_apply] at h
    exact .inl (Option.ite_none_left_eq_some.mp h).2

/-- The accounts in memory after a run. -/
def tracked (ops : List (ℕ × AccountOp κ)) : Accounts κ :=
  Tx.exec (fun accounts op => (localStep accounts op).2) (fun _ => none) ops

theorem earned_tracked (ops : List (ℕ × AccountOp κ)) :
    ∀ key, ∀ state ∈ tracked ops key, Earned ops key state := by
  induction ops using List.reverseRecOn with
  | nil => exact fun key state h => nomatch h
  | append_singleton ops op ih =>
    intro key state hstate
    rw [tracked, Tx.exec_append] at hstate
    obtain ⟨now, op⟩ := op
    rcases localStep_eq_some hstate with hold | ⟨evicted, rfl, rfl⟩
    · exact (ih key state hold).mono _
    · refine Earned.fail ?_ evicted
      show Earned ops key ((tracked ops key).getD ⟨0, 0⟩)
      cases hold : tracked ops key with
      | none => exact ⟨Nat.zero_le _, .inl rfl⟩
      | some old => exact ih key old hold

/-- **An account waits for its own failures only.** After any run of calls, whatever was evicted
and however their instants are ordered, an account that is delayed has had more than five failures
of its own in the run, and waits at most a minute from one of them. -/
theorem delay_earned (ops : List (ℕ × AccountOp κ)) (key : κ) (now : ℕ) :
    accountDelay (tracked ops) key now = 0 ∨ failuresBeforeBackoff < ops.countP (fails key) ∧
      ∃ op ∈ ops, fails key op ∧
        accountDelay (tracked ops) key now ≤ op.1 + maxAccountBackoff - now := by
  unfold accountDelay
  cases hkey : tracked ops key with
  | none => exact .inl rfl
  | some state =>
    obtain ⟨hcount, hzero | ⟨hmany, op, hop, hfails, hle⟩⟩ := earned_tracked ops key state hkey
    · exact .inl (if_pos hzero)
    · refine .inr ⟨hmany.trans_le hcount, op, hop, hfails, ?_⟩
      dsimp only
      split <;> omega

end Earned

end Hikyo.Admission
