import Hikyo.Rollout.Authority

/-!
# Signing a command

The envelope of a command has one signature for each required algorithm, in order
and under the pinned identities. Whoever holds the enrolled keys can put a valid
command into such an envelope (`exists_signed`), and a command that verifies when it
is new can be anchored as long as the enrollment stays (`anchored_of_verifyCommand`).
-/

namespace Hikyo.Rollout

open List

variable {P : Platform} {S : Scheme} {e : Enrollment} {keys : PublicKeys}

/-! ## Trust states -/

/-- An enrolled trust state is a valid one. -/
theorem validAuthority_of_enrolled {a : Authority} (h : validEnrollment S e = true)
    (ha : e.authority = some a) : validAuthority S a = true ∧ a.keyIDs.length = a.required.length ∧
      (a.required = [.ed25519, .mldsa65] ∨ a.required = [.mldsa65]) := by
  have hvalid : validAuthority S a = true := by
    unfold validEnrollment at h
    rw [Bool.and_eq_true, ha] at h
    exact h.2
  refine ⟨hvalid, ?_⟩
  unfold validAuthority at hvalid
  simp only [Bool.and_eq_true, Bool.or_eq_true, decide_eq_true_eq] at hvalid
  exact ⟨hvalid.1.1.2, hvalid.1.2⟩

/-- The held key of a required algorithm has the pinned identity. -/
theorem keyID_of_checkKeys {a : Authority} {algorithm : Algorithm} {id : String}
    (h : checkKeys S e keys = true) (ha : e.authority = some a)
    (hmem : (algorithm, id) ∈ a.required.zip a.keyIDs) : keys.keyID S algorithm = some id := by
  unfold checkKeys at h
  rw [ha, Bool.and_eq_true] at h
  exact of_decide_eq_true (all_eq_true.mp h.2 _ hmem)

/-! ## Envelopes -/

section Envelopes

variable {signed : SignedCommand} {required : List Algorithm} {ids : List String}

variable (h : envelopeMatches S signed required ids = true) (hids : ids.length = required.length)

include h hids

/-- The places of an envelope: a signature, its algorithm and its key. -/
theorem getElem_of_envelopeMatches {i : ℕ} (hi : i < required.length) :
    ∃ s ∈ signed.signatures, signed.signatures[i]? = some s ∧ required[i]? = some s.algorithm ∧
      ids[i]? = some s.keyID := by
  unfold envelopeMatches at h
  rw [Bool.and_eq_true, Bool.and_eq_true, decide_eq_true_eq, decide_eq_true_eq] at h
  obtain ⟨⟨-, hlength⟩, hall⟩ := h
  have hsig : i < signed.signatures.length := hlength ▸ hi
  have hid : i < ids.length := hids ▸ hi
  have hzip : (signed.signatures[i], required[i], ids[i]) ∈
      signed.signatures.zip (required.zip ids) := by
    refine mem_iff_getElem.mpr ⟨i, ?_, ?_⟩
    · rw [length_zip, length_zip]
      omega
    · rw [getElem_zip, getElem_zip]
  have hthis := all_eq_true.mp hall _ hzip
  rw [Bool.and_eq_true, Bool.and_eq_true, decide_eq_true_eq, decide_eq_true_eq] at hthis
  refine ⟨signed.signatures[i], getElem_mem hsig, List.getElem?_eq_getElem hsig, ?_, ?_⟩
  · rw [List.getElem?_eq_getElem hi, hthis.1.1]
  · rw [List.getElem?_eq_getElem hid, hthis.1.2]

theorem algorithm_of_envelopeMatches {algorithm : Algorithm} (hmem : algorithm ∈ required) :
    ∃ signature ∈ signed.signatures, signature.algorithm = algorithm := by
  obtain ⟨i, hi, rfl⟩ := mem_iff_getElem.mp hmem
  obtain ⟨s, hs, -, halgorithm, -⟩ := getElem_of_envelopeMatches h hids hi
  rw [List.getElem?_eq_getElem hi] at halgorithm
  exact ⟨s, hs, (Option.some.inj halgorithm).symm⟩

/-- A signature of an envelope names an algorithm with its pinned key. -/
theorem zip_of_envelopeMatches {s : CommandSignature} (hs : s ∈ signed.signatures) :
    (s.algorithm, s.keyID) ∈ required.zip ids := by
  have hlength : signed.signatures.length = required.length := by
    unfold envelopeMatches at h
    rw [Bool.and_eq_true, Bool.and_eq_true, decide_eq_true_eq, decide_eq_true_eq] at h
    exact h.1.2
  obtain ⟨i, hi, rfl⟩ := mem_iff_getElem.mp hs
  obtain ⟨s', -, hs', halgorithm, hkeyID⟩ := getElem_of_envelopeMatches h hids (hlength ▸ hi)
  rw [List.getElem?_eq_getElem hi] at hs'
  obtain rfl := Option.some.inj hs'
  refine mem_iff_getElem?.mpr ⟨i, ?_⟩
  rw [getElem?_zip_eq_some]
  exact ⟨halgorithm, hkeyID⟩

end Envelopes

/-- **A new command that verifies can be anchored.** -/
theorem anchored_of_verifyCommand {signed : SignedCommand} (henrolled : validEnrollment S e = true)
    (hkeys : checkKeys S e keys = true) (h : verifyCommand P S e keys signed = true) :
    anchored P S e keys signed = true := by
  have hverify := h
  unfold verifyCommand at h
  rw [Bool.and_eq_true, Bool.and_eq_true, Bool.and_eq_true] at h
  obtain ⟨⟨⟨hvalid, henvelope⟩, hfits⟩, hsignatures⟩ := h
  unfold validCommand at hvalid
  rw [Bool.and_eq_true, decide_eq_true_eq] at hvalid
  obtain ⟨hshape, hbinding⟩ := hvalid
  unfold anchored
  rw [hshape, Bool.true_and, hbinding]
  unfold expectedBinding
  unfold validEnvelope at henvelope
  cases hauthority : e.authority with
  | none => exact hverify
  | some a =>
    rw [hauthority] at henvelope hsignatures
    dsimp only [Option.map_some] at henvelope hsignatures ⊢
    obtain ⟨hvalid, hids, hrequired⟩ := validAuthority_of_enrolled henrolled hauthority
    -- every signature is under the key that is held now
    have hheld : ∀ s ∈ signed.signatures, (keys.keyID S s.algorithm).getD "" = s.keyID := by
      intro s hs
      rw [keyID_of_checkKeys hkeys hauthority (zip_of_envelopeMatches henvelope hids hs)]
      rfl
    have hpq : Algorithm.mldsa65 ∈ a.required := by
      rcases hrequired with h | h
      · rw [h]
        decide
      · rw [h]
        decide
    obtain ⟨s, hs, halgorithm⟩ := algorithm_of_envelopeMatches henvelope hids hpq
    rw [hvalid, henvelope, hfits, decide_eq_true (le_refl a.generation)]
    rw [Bool.true_and, Bool.true_and, Bool.true_and, Bool.true_and, Bool.and_eq_true]
    refine ⟨all_eq_true.mpr fun s hs => ?_, any_eq_true.mpr ⟨s, hs, ?_⟩⟩
    · rw [if_pos (hheld s hs)]
      exact all_eq_true.mp hsignatures s hs
    · rw [Bool.and_eq_true, decide_eq_true_eq, decide_eq_true_eq]
      exact ⟨halgorithm, hheld s hs⟩

/-! ## Making a signed command -/

/-- **The holders of the keys can sign anything.** -/
def CanSign (S : Scheme) (keys : PublicKeys) : Prop :=
  ∀ algorithm key input, keys.key algorithm = some key →
    ∃ signature, S.wellSized algorithm signature = true ∧
      S.verify algorithm key input signature = true

/-- One signature for each of the required algorithms. -/
theorem exists_signatures (hsign : CanSign S keys) (input : SignatureInput)
    {required : List Algorithm} {ids : List String} (hids : ids.length = required.length)
    (hheld : ∀ x ∈ required.zip ids, keys.keyID S x.1 = some x.2) :
    ∃ signatures : List CommandSignature, signatures.length = required.length ∧
      ((signatures.zip (required.zip ids)).all fun (s, algorithm, id) =>
        s.algorithm = algorithm && s.keyID = id && S.wellSized s.algorithm s.signature) = true ∧
      signatures.all (verifyAlgorithm S keys input) = true := by
  induction required generalizing ids with
  | nil => exact ⟨[], rfl, rfl, rfl⟩
  | cons algorithm required ih =>
    cases ids with
    | nil => cases hids
    | cons id ids =>
      obtain ⟨signatures, hlength, hmatch, hverify⟩ := ih (Nat.succ.inj hids)
        fun x hx => hheld x (mem_cons_of_mem _ hx)
      have hid := hheld (algorithm, id) mem_cons_self
      obtain ⟨key, hkey, -⟩ := Option.map_eq_some_iff.mp hid
      obtain ⟨signature, hsized, hsignature⟩ := hsign algorithm key input hkey
      refine ⟨⟨algorithm, id, signature⟩ :: signatures, congrArg Nat.succ hlength, ?_, ?_⟩
      · rw [zip_cons_cons, zip_cons_cons, all_cons, hmatch, Bool.and_true]
        simp [hsized]
      · rw [all_cons, hverify, Bool.and_true]
        exact (Option.any_eq_true _ _).mpr ⟨key, hkey, hsignature⟩

/-- **A valid command can be signed.** -/
theorem exists_signed (henrolled : validEnrollment S e = true) (hkeys : checkKeys S e keys = true)
    (hsign : CanSign S keys) {c : Command} (hvalid : validCommand P e c = true)
    (hfits : S.commandFits c = true) :
    ∃ signed : SignedCommand, signed.command = c ∧ verifyCommand P S e keys signed = true := by
  have hbinding : c.authority = expectedBinding P e := by
    unfold validCommand at hvalid
    rw [Bool.and_eq_true, decide_eq_true_eq] at hvalid
    exact hvalid.2
  unfold expectedBinding at hbinding
  cases hauthority : e.authority with
  | none =>
    have hkey : ∃ key, keys.ed25519 = some key := by
      unfold checkKeys at hkeys
      rw [hauthority, Bool.and_eq_true] at hkeys
      exact Option.isSome_iff_exists.mp hkeys.1
    obtain ⟨key, hkey⟩ := hkey
    obtain ⟨signature, hsized, hsignature⟩ := hsign .ed25519 key (.v1 c) hkey
    refine ⟨⟨c, signature, []⟩, rfl, ?_⟩
    rw [hauthority] at hbinding
    unfold verifyCommand validEnvelope
    rw [hvalid, hfits, hauthority]
    dsimp only
    rw [hbinding, hsized, hkey]
    simp [hsignature]
  | some a =>
    obtain ⟨-, hids, -⟩ := validAuthority_of_enrolled henrolled hauthority
    obtain ⟨signatures, hlength, hmatch, hverify⟩ := exists_signatures hsign (.v2 c) hids
      fun x hx => keyID_of_checkKeys hkeys hauthority hx
    refine ⟨⟨c, "", signatures⟩, rfl, ?_⟩
    unfold verifyCommand validEnvelope
    rw [hvalid, hfits, hauthority]
    dsimp only
    rw [hverify]
    unfold envelopeMatches
    dsimp only
    rw [hmatch, decide_eq_true hlength]
    rfl

end Hikyo.Rollout
