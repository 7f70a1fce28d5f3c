import Hikyo.Authz.Authorize

/-!
# Presence rules

A key is required in some environments and forbidden in some. Each of the two rules is
symbolic: it names no environment, it names some, or it covers all environments – also
the ones that do not exist yet, which is why the mode is stored and not expanded.

Whether two rules can bind one environment is decided on the rules alone (`overlap`).
It is asked of the two rules of one key (`checkPresence`), and of the rules of two
members of a key group (`checkGroupPresence`), because the members of a group are set
together or absent together. A pair that passes has no environment in common
(`overlap_eq_false`); the converse holds for rules in shape.
-/

namespace Hikyo.Catalogue

open List
open Tx (ensure)
open RuleError (quoted)

inductive PresenceMode where
  | none
  | all
  | explicit
deriving DecidableEq, Repr

def PresenceMode.text : PresenceMode → String
  | none => "none"
  | all => "all"
  | explicit => "explicit"

/-- **One rule**: `required_in` or `forbidden_in`. The environments are identities in
the store and names in a bundle. -/
structure Presence where
  mode : PresenceMode
  environments : List String
deriving DecidableEq, Repr

/-- The two rules of a key. -/
structure PresenceRules where
  required : Presence
  forbidden : Presence
deriving DecidableEq, Repr

/-- **Whether a rule applies to an environment.** -/
def Presence.covers (p : Presence) (env : String) : Bool :=
  match p.mode with
  | .none => false
  | .all => true
  | .explicit => p.environments.contains env

/-- The rule without one environment. -/
def Presence.without (p : Presence) (env : String) : Presence :=
  { p with environments := p.environments.filter fun id => id ≠ env }

/-- An explicit set that was emptied collapses to `none`. -/
def Presence.collapsed (p : Presence) : Presence :=
  if p.mode = .explicit ∧ p.environments = [] then { p with mode := .none } else p

theorem covers_collapsed (p : Presence) (env : String) : p.collapsed.covers env = p.covers env := by
  unfold Presence.collapsed
  split
  case isTrue h =>
    unfold Presence.covers
    rw [h.1, h.2]
    rfl
  case isFalse => rfl

variable {p : Presence}

theorem covers_of_covers_without {env e : String}
    (h : (p.without env).covers e = true) : p.covers e = true := by
  unfold Presence.covers Presence.without at *
  cases hm : p.mode with
  | none => rw [hm] at h; exact h
  | all => rfl
  | explicit =>
    rw [hm] at h
    exact contains_iff_mem.mpr (mem_filter.mp (contains_iff_mem.mp h)).1

/-- Whether the two rules can bind the same environment, and the reason. -/
def overlap (required forbidden : Presence) : Option String :=
  if required.mode = .none ∨ forbidden.mode = .none then none
  else if required.mode = .all ∨ forbidden.mode = .all then
    some "one of the rules uses mode `all`"
  else
    match forbidden.environments.filter fun id => required.environments.contains id with
    | [] => none
    | both => some ("environments " ++ String.intercalate ", " both)

/-- **What does not overlap has no environment in common.** -/
theorem not_covers_of_overlap {required forbidden : Presence}
    (h : overlap required forbidden = none) (env : String) :
    ¬ (required.covers env = true ∧ forbidden.covers env = true) := by
  rintro ⟨hr, hf⟩
  unfold overlap at h
  unfold Presence.covers at hr hf
  cases hrm : required.mode <;> cases hfm : forbidden.mode <;>
    simp only [hrm, hfm, Bool.false_eq_true] at hr hf h
  case all.all => simp at h
  case all.explicit => simp at h
  case explicit.all => simp at h
  case explicit.explicit =>
    have hmem : env ∈ forbidden.environments.filter fun id => required.environments.contains id :=
      mem_filter.mpr ⟨contains_iff_mem.mp hf, hr⟩
    rw [if_neg (by simp), if_neg (by simp)] at h
    split at h
    next hnil =>
      rw [hnil] at hmem
      cases hmem
    next => cases h

/-- The environments of an explicit rule, against those already seen. -/
def checkEnvironments (what : String) : List String → List String → Except ServiceError Unit
  | _, [] => .ok ()
  | seen, id :: ids =>
    if id = "" then .error (.invalid ("`" ++ what ++ "` names an empty environment id"))
    else if id ∈ seen then
      .error (.invalid ("`" ++ what ++ "` names environment " ++ quoted id ++ " more than once"))
    else checkEnvironments what (id :: seen) ids

/-- The shape of a rule: only an explicit one carries environments, at least one, none
of them empty or twice. -/
def checkPresenceShape (what : String) (p : Presence) : Except ServiceError Unit :=
  match p.mode with
  | .explicit => do
    ensure (p.environments ≠ [])
      (.invalid ("`" ++ what ++ "` mode `explicit` names at least one environment"))
    checkEnvironments what [] p.environments
  | mode =>
    ensure (p.environments = [])
      (.invalid ("`" ++ what ++ "` mode " ++ quoted mode.text ++ " carries no environment ids"))

/-- **A rule in shape.** -/
structure Presence.Shaped (p : Presence) : Prop where
  nodup : p.environments.Nodup
  nonempty : "" ∉ p.environments
  explicit : p.mode = .explicit ↔ p.environments ≠ []

variable {what : String}

theorem checkEnvironments_eq_ok {ids : List String} :
    ∀ {seen : List String} {u : Unit}, checkEnvironments what seen ids = .ok u ↔
      ids.Nodup ∧ "" ∉ ids ∧ ∀ id ∈ ids, id ∉ seen := by
  induction ids with
  | nil => exact iff_of_true rfl ⟨nodup_nil, not_mem_nil, by simp⟩
  | cons id ids ih =>
    intro seen u
    unfold checkEnvironments
    split
    case isTrue hempty =>
      exact iff_of_false (by simp) (fun h => h.2.1 (hempty ▸ mem_cons_self))
    case isFalse hempty =>
      split
      case isTrue hseen =>
        exact iff_of_false (by simp) (fun h => h.2.2 id mem_cons_self hseen)
      case isFalse hseen =>
        rw [ih, nodup_cons, mem_cons, not_or, forall_mem_cons]
        simp only [mem_cons, not_or]
        constructor
        · rintro ⟨hnodup, hne, hfresh⟩
          exact ⟨⟨fun hid => (hfresh id hid).1 rfl, hnodup⟩, ⟨fun h => hempty h.symm, hne⟩,
            hseen, fun x hx => (hfresh x hx).2⟩
        · rintro ⟨⟨hid, hnodup⟩, ⟨-, hne⟩, -, hfresh⟩
          exact ⟨hnodup, hne, fun x hx => ⟨fun h => hid (h ▸ hx), hfresh x hx⟩⟩

variable {u : Unit}

theorem checkPresenceShape_eq_ok :
    checkPresenceShape what p = .ok u ↔ p.Shaped := by
  -- a mode that carries no environments is in shape if there are none
  have hbare : p.mode ≠ .explicit → (p.environments = [] ↔ p.Shaped) := by
    intro hm
    refine ⟨fun h => ⟨h ▸ nodup_nil, h ▸ not_mem_nil, ?_⟩, fun h => ?_⟩
    · exact iff_of_false hm (not_not_intro h)
    · by_contra hne
      exact hm (h.explicit.mpr hne)
  unfold checkPresenceShape
  cases hm : p.mode with
  | explicit =>
    simp only [Tx.except_bind_eq_ok, Tx.ensure_eq_ok, exists_const, checkEnvironments_eq_ok]
    exact ⟨fun ⟨hne, hnodup, hempty, _⟩ => ⟨hnodup, hempty, iff_of_true hm hne⟩,
      fun h => ⟨h.explicit.mp hm, h.nodup, h.nonempty, fun _ _ => not_mem_nil⟩⟩
  | none | all => exact (Tx.ensure_eq_ok _ _ u).trans (hbare (by rw [hm]; decide))

/-- `CheckPresence`: both rules are in shape, and the key can be kept. -/
def checkPresence (rules : PresenceRules) : Except ServiceError Unit := do
  checkPresenceShape "required_in" rules.required
  checkPresenceShape "forbidden_in" rules.forbidden
  match overlap rules.required rules.forbidden with
  | none => .ok ()
  | some why => .error (.invalid
      ("a key cannot be both `required_in` and `forbidden_in` the same environment (" ++ why ++
        ")"))

theorem checkPresence_eq_ok {rules : PresenceRules} : checkPresence rules = .ok u ↔
      rules.required.Shaped ∧ rules.forbidden.Shaped ∧
        overlap rules.required rules.forbidden = none := by
  unfold checkPresence
  simp only [Tx.except_bind_eq_ok, checkPresenceShape_eq_ok, exists_const]
  refine and_congr_right fun _ => and_congr_right fun _ => ?_
  split
  next h => exact iff_of_true rfl h
  next why h => exact iff_of_false (by simp) (by simp [h])

/-- `CheckGroupPresence`: the same conflict across two members of one key group. -/
def checkGroupPresence (a b : PresenceRules) : Except ServiceError Unit :=
  ensure (overlap a.required b.forbidden = none ∧ overlap b.required a.forbidden = none)
    (.invalid ("two members of one key group cannot be `required_in` and `forbidden_in` the " ++
      "same environment — a group's presence is all-or-none"))

/-- **Two sets of rules can be met together**: in no environment, existing or not, one
side asks for what the other forbids. -/
def PresenceRules.Compatible (a b : PresenceRules) : Prop :=
  ∀ env : String, ¬ (a.required.covers env = true ∧ b.forbidden.covers env = true) ∧
    ¬ (b.required.covers env = true ∧ a.forbidden.covers env = true)

theorem PresenceRules.Compatible.symm {a b : PresenceRules} (h : a.Compatible b) : b.Compatible a :=
  fun env => (h env).symm

theorem compatible_of_checkGroupPresence {a b : PresenceRules}
    (h : checkGroupPresence a b = .ok u) : a.Compatible b := by
  obtain ⟨hab, hba⟩ := Tx.ensured h
  exact fun env => ⟨not_covers_of_overlap hab env, not_covers_of_overlap hba env⟩

end Hikyo.Catalogue
