import Hikyo.Lib.JsonText
import Hikyo.Lib.Transactions

/-!
# Reauthentication intents

A reauthentication is for one decision: the disclosure of keys of an environment
for a purpose, an operation of an adapter over a set of environments, the minting
of a developer credential, or an act on the configuration of the instance itself.
`ReauthIntent` is the closed form of a decision, built by the constructors only,
and `bindingFor` derives from it everything that is stored or signed.

What a passkey signs is a JSON text. It is kept here as the value it is the text of
(`SignedBinding`); wherever the code compares texts, the texts are compared. A text
determines its decision (`SignedBinding.text_injective`), so the comparison is as
sharp as it looks.
-/

namespace Hikyo.Reauth

open List
open JsonText (Text quote array)

/-! ## Purposes and operations -/

/-- What a reauthentication is for. -/
inductive ReauthPurpose where
  | reveal
  | copy
  | publish
  | mint
  | adapter
  | approve
  | reject
  | bypass
  | access
  | selfConfig
  | developerCredential
deriving DecidableEq, Repr

def ReauthPurpose.text : ReauthPurpose → String
  | .reveal => "reveal"
  | .copy => "copy"
  | .publish => "publish"
  | .mint => "mint"
  | .adapter => "adapter"
  | .approve => "approve"
  | .reject => "reject"
  | .bypass => "bypass"
  | .access => "access"
  | .selfConfig => "self-config"
  | .developerCredential => "developer-credential"

/-- The operations a reauthentication is given for. -/
inductive ReauthOperation where
  | valueReveal
  | valueCopySource
  | valueCopyDestination
  | credentialMint
  | approvalVote
  | approvalBypass
  | accessBypass
  | adapterConfigure
  | adapterCredentialSet
  | adapterAdopt
  | adapterSync
  | selfConfigAdopt
  | selfConfigApply
  | selfConfigTest
  | developerCredentialMint
deriving DecidableEq, Repr

def ReauthOperation.text : ReauthOperation → String
  | .valueReveal => "value.reveal"
  | .valueCopySource => "value.copy-source"
  | .valueCopyDestination => "value.copy-destination"
  | .credentialMint => "identity.credential-mint"
  | .approvalVote => "approval.vote"
  | .approvalBypass => "approval.bypass"
  | .accessBypass => "access.bypass"
  | .adapterConfigure => "adapter.configure"
  | .adapterCredentialSet => "adapter.credential-set"
  | .adapterAdopt => "adapter.adopt"
  | .adapterSync => "adapter.sync"
  | .selfConfigAdopt => "self-config.adopt"
  | .selfConfigApply => "self-config.apply"
  | .selfConfigTest => "self-config.test"
  | .developerCredentialMint => "developer-credential.mint"

/-- The four operations of an adapter. -/
def adapterReauthOperation (operation : ReauthOperation) : Bool :=
  operation = .adapterConfigure ∨ operation = .adapterCredentialSet ∨
    operation = .adapterAdopt ∨ operation = .adapterSync

inductive IntentVariant where
  | unbound
  | developerCredential
  | reveal
  | copy
  | publish
  | mint
  | approve
  | reject
  | bypass
  | accessBypass
  | adapterConfigure
  | adapterCredentialSet
  | adapterAdopt
  | adapterSync
  | selfConfigAdopt
  | selfConfigApply
  | selfConfigTest
deriving DecidableEq, Repr

/-- One row of the relation between variants, purposes and operations. -/
structure IntentDescriptor where
  variant : IntentVariant
  /-- none for the unbound variant -/
  purpose : Option ReauthPurpose
  operation : Option ReauthOperation
  adapter : Bool

def reauthIntentDescriptors : List IntentDescriptor :=
  [⟨.developerCredential, some .developerCredential, some .developerCredentialMint, false⟩,
    ⟨.selfConfigAdopt, some .selfConfig, some .selfConfigAdopt, false⟩,
    ⟨.selfConfigApply, some .selfConfig, some .selfConfigApply, false⟩,
    ⟨.selfConfigTest, some .selfConfig, some .selfConfigTest, false⟩,
    ⟨.unbound, none, none, false⟩,
    ⟨.reveal, some .reveal, some .valueReveal, false⟩,
    ⟨.copy, some .copy, some .valueCopySource, false⟩,
    ⟨.publish, some .publish, some .valueCopyDestination, false⟩,
    ⟨.mint, some .mint, some .credentialMint, false⟩,
    ⟨.approve, some .approve, some .approvalVote, false⟩,
    ⟨.reject, some .reject, some .approvalVote, false⟩,
    ⟨.bypass, some .bypass, some .approvalBypass, false⟩,
    ⟨.accessBypass, some .access, some .accessBypass, false⟩,
    ⟨.adapterConfigure, some .adapter, some .adapterConfigure, true⟩,
    ⟨.adapterCredentialSet, some .adapter, some .adapterCredentialSet, true⟩,
    ⟨.adapterAdopt, some .adapter, some .adapterAdopt, true⟩,
    ⟨.adapterSync, some .adapter, some .adapterSync, true⟩]

def descriptorForVariant (variant : IntentVariant) : Option IntentDescriptor :=
  reauthIntentDescriptors.find? fun d => d.variant = variant

def disclosureDescriptorForPurpose (purpose : ReauthPurpose) : Option IntentDescriptor :=
  reauthIntentDescriptors.find? fun d =>
    !d.adapter && d.variant ≠ .unbound && d.purpose = some purpose

def descriptorForOperation (operation : ReauthOperation) : Option IntentDescriptor :=
  reauthIntentDescriptors.find? fun d => d.variant ≠ .unbound && d.operation = some operation

/-! ## What is signed -/

inductive SelfConfigAction where
  | adopt
  | apply
  | rolloutRestore
  | mailTest
deriving DecidableEq, Repr

def SelfConfigAction.text : SelfConfigAction → String
  | .adopt => "adopt"
  | .apply => "apply"
  | .rolloutRestore => "rollout-restore"
  | .mailTest => "mail-test"

/-- One exact act on the configuration of the instance. -/
structure SelfConfigReauthTarget where
  action : SelfConfigAction
  ownerInstanceID : String
  revision : ℤ
  schemaVersion : ℤ
  expectedGeneration : ℤ
  previewToken : String
  /-- the `to` member: where a test mail goes -/
  recipient : String
  confirmRestoredCredentials : Bool
  planDigest : String
deriving DecidableEq, Repr

/-- The lifetime and the consent of a developer credential. -/
structure DeveloperCredentialReauthTarget where
  lifetime : ℕ
  consentCurrentAndFuture : Bool
deriving DecidableEq, Repr

/-- **The decision a passkey signs.** -/
inductive SignedBinding where
  | disclosure (purpose : ReauthPurpose) (environmentID : String) (keyIDs : List String)
  | adapter (operation : ReauthOperation) (environmentID : String) (environmentIDs : List String)
  | developerCredential (environmentID : String) (keyIDs : List String)
      (target : DeveloperCredentialReauthTarget)
  | selfConfig (environmentID : String) (target : SelfConfigReauthTarget)
deriving DecidableEq, Repr

/-- An act on the configuration of the instance, or the minting of a developer credential. -/
def SignedBinding.isExact : SignedBinding → Bool
  | .disclosure _ _ _ | .adapter _ _ _ => false
  | .developerCredential _ _ _ | .selfConfig _ _ => true

def boolText (b : Bool) : Text := if b then "true".toList else "false".toList

/-- A member of an object. -/
def rawMember (name : String) (value : Text) : Text := quote name.toList ++ ':' :: value

/-- A member of an object whose value is a string. -/
def stringMember (name value : String) : Text := rawMember name (quote value.toList)

/-- A member of an object whose value is an array of strings. -/
def arrayMember (name : String) (values : List String) : Text :=
  rawMember name (array (values.map String.toList))

/-- An object, its members in the order in which they are declared. -/
def jsonObject : List Text → Text
  | [] => "\x7b\x7d".toList
  | m :: ms => '\x7b' :: (m ++ (ms.flatMap (',' :: ·) ++ ['\x7d']))

def DeveloperCredentialReauthTarget.text (t : DeveloperCredentialReauthTarget) : Text :=
  jsonObject [rawMember "lifetime" (Nat.repr t.lifetime).toList,
    rawMember "consent_current_and_future" (boolText t.consentCurrentAndFuture)]

def SelfConfigReauthTarget.text (t : SelfConfigReauthTarget) : Text :=
  jsonObject ([stringMember "action" t.action.text,
    stringMember "owner_instance_id" t.ownerInstanceID,
    rawMember "revision" (Int.repr t.revision).toList,
    rawMember "schema_version" (Int.repr t.schemaVersion).toList,
    rawMember "expected_generation" (Int.repr t.expectedGeneration).toList,
    stringMember "preview_token" t.previewToken, stringMember "to" t.recipient,
    rawMember "confirm_restored_credentials" (boolText t.confirmRestoredCredentials)] ++
    if t.planDigest = "" then [] else [stringMember "plan_digest" t.planDigest])

/-- **The text that is signed.** -/
def SignedBinding.text : SignedBinding → Text
  | .disclosure purpose env keys =>
    jsonObject [stringMember "operation" purpose.text, stringMember "environment_id" env,
      arrayMember "key_ids" keys]
  | .adapter operation env envs =>
    jsonObject [stringMember "purpose" ReauthPurpose.adapter.text,
      stringMember "operation" operation.text, stringMember "environment_id" env,
      arrayMember "environment_ids" envs]
  | .developerCredential env keys target =>
    jsonObject [stringMember "purpose" ReauthPurpose.developerCredential.text,
      stringMember "environment_id" env, arrayMember "key_ids" keys,
      rawMember "target" target.text]
  | .selfConfig env target =>
    jsonObject [stringMember "purpose" ReauthPurpose.selfConfig.text,
      stringMember "environment_id" env, rawMember "self_config" target.text]

/-- The environment a binding names. -/
def SignedBinding.environmentID : SignedBinding → String
  | .disclosure _ env _ => env
  | .adapter _ env _ => env
  | .developerCredential env _ _ => env
  | .selfConfig env _ => env

/-! ### The text determines the decision -/

/-- An enumeration with its members listed, none of the texts twice. -/
theorem injective_of_listed {α : Type} {text : α → String} (all : List α) (hall : ∀ a, a ∈ all)
    (hnodup : (all.map text).Nodup) : Function.Injective text :=
  fun a b h => inj_on_of_nodup_map hnodup (hall a) (hall b) h

theorem ReauthPurpose.text_injective : Function.Injective ReauthPurpose.text :=
  injective_of_listed [.reveal, .copy, .publish, .mint, .adapter, .approve, .reject, .bypass,
    .access, .selfConfig, .developerCredential] (fun a => by cases a <;> decide) (by decide)

theorem ReauthOperation.text_injective : Function.Injective ReauthOperation.text :=
  injective_of_listed [.valueReveal, .valueCopySource, .valueCopyDestination, .credentialMint,
    .approvalVote, .approvalBypass, .accessBypass, .adapterConfigure, .adapterCredentialSet,
    .adapterAdopt, .adapterSync, .selfConfigAdopt, .selfConfigApply, .selfConfigTest,
    .developerCredentialMint] (fun a => by cases a <;> decide) (by decide)

theorem SelfConfigAction.text_injective : Function.Injective SelfConfigAction.text :=
  injective_of_listed [.adopt, .apply, .rolloutRestore, .mailTest] (fun a => by cases a <;> decide)
    (by decide)

section Members

variable {name name' : String} {value value' rest rest' : Text}

/-- A member in front of a rest gives away its name. -/
theorem rawMember_append_inj (h : rawMember name value ++ rest = rawMember name' value' ++ rest') :
    name = name' ∧ value ++ rest = value' ++ rest' := by
  unfold rawMember at h
  rw [append_assoc, append_assoc] at h
  obtain ⟨hname, hvalue⟩ := JsonText.quote_append_inj h
  exact ⟨String.toList_inj.mp hname, (cons.inj hvalue).2⟩

theorem stringMember_append_inj {v v' : String}
    (h : stringMember name v ++ rest = stringMember name' v' ++ rest') :
    name = name' ∧ v = v' ∧ rest = rest' := by
  obtain ⟨hname, hvalue⟩ := rawMember_append_inj h
  obtain ⟨hv, hrest⟩ := JsonText.quote_append_inj hvalue
  exact ⟨hname, String.toList_inj.mp hv, hrest⟩

theorem arrayMember_append_inj {vs vs' : List String}
    (h : arrayMember name vs ++ rest = arrayMember name' vs' ++ rest') :
    name = name' ∧ vs = vs' ∧ rest = rest' := by
  obtain ⟨hname, hvalue⟩ := rawMember_append_inj h
  obtain ⟨hvs, hrest⟩ := JsonText.array_append_inj hvalue
  exact ⟨hname, map_injective_iff.mpr (fun _ _ => String.toList_inj.mp) hvs, hrest⟩

/-- A value without commas ends at the comma. -/
theorem append_comma_inj : ∀ {a b : Text}, ',' ∉ a → ',' ∉ b →
    a ++ ',' :: rest = b ++ ',' :: rest' → a = b ∧ rest = rest'
  | [], [], _, _, h => ⟨rfl, (cons.inj h).2⟩
  | [], d :: b, _, hb, h => absurd ((cons.inj h).1 ▸ mem_cons_self) hb
  | c :: a, [], ha, _, h => absurd ((cons.inj h).1 ▸ mem_cons_self) ha
  | c :: a, d :: b, ha, hb, h => by
    obtain ⟨rfl, htail⟩ := cons.inj h
    obtain ⟨rfl, hrest⟩ := append_comma_inj (fun hc => ha (mem_cons_of_mem _ hc))
      (fun hc => hb (mem_cons_of_mem _ hc)) htail
    exact ⟨rfl, hrest⟩

theorem comma_notMem_repr (n : ℕ) : ',' ∉ (Nat.repr n).toList := by
  intro h
  rw [Nat.toList_repr] at h
  exact absurd (Nat.isDigit_of_mem_toDigits (by decide) (by decide) h) (by decide)

theorem comma_notMem_intRepr (n : ℤ) : ',' ∉ (Int.repr n).toList := by
  cases n with
  | ofNat n => exact comma_notMem_repr n
  | negSucc n =>
    show ',' ∉ ("-" ++ Nat.repr (n + 1)).toList
    rw [String.toList_append, mem_append, not_or]
    exact ⟨by decide, comma_notMem_repr (n + 1)⟩

theorem natMember_append_inj {n n' : ℕ} (h : rawMember name (Nat.repr n).toList ++ ',' :: rest =
      rawMember name (Nat.repr n').toList ++ ',' :: rest') : n = n' ∧ rest = rest' := by
  obtain ⟨-, hvalue⟩ := rawMember_append_inj h
  obtain ⟨hn, hrest⟩ := append_comma_inj (comma_notMem_repr n) (comma_notMem_repr n') hvalue
  exact ⟨Nat.repr_inj.mp (String.toList_inj.mp hn), hrest⟩

theorem intMember_append_inj {n n' : ℤ} (h : rawMember name (Int.repr n).toList ++ ',' :: rest =
      rawMember name (Int.repr n').toList ++ ',' :: rest') : n = n' ∧ rest = rest' := by
  obtain ⟨-, hvalue⟩ := rawMember_append_inj h
  obtain ⟨hn, hrest⟩ := append_comma_inj (comma_notMem_intRepr n) (comma_notMem_intRepr n') hvalue
  exact ⟨Int.repr_inj.mp (String.toList_inj.mp hn), hrest⟩

theorem boolMember_append_inj {b b' : Bool}
    (h : rawMember name (boolText b) ++ rest = rawMember name (boolText b') ++ rest') :
    b = b' ∧ rest = rest' := by
  obtain ⟨-, hvalue⟩ := rawMember_append_inj h
  cases b with
  | false =>
    cases b' with
    | false => exact ⟨rfl, append_cancel_left hvalue⟩
    | true => exact absurd (cons.inj hvalue).1 (by decide)
  | true =>
    cases b' with
    | false => exact absurd (cons.inj hvalue).1 (by decide)
    | true => exact ⟨rfl, append_cancel_left hvalue⟩

end Members

/-- The text of an object with at least one member, up to its first member's end. -/
theorem jsonObject_cons_append (m : Text) (ms : List Text) (rest : Text) :
    jsonObject (m :: ms) ++ rest = '\x7b' :: (m ++ (ms.flatMap (',' :: ·) ++ '\x7d' :: rest)) := by
  simp [jsonObject]

/-- The first member of an object, if it is a string. -/
theorem firstMember_inj {name name' value value' : String} {ms ms' : List Text}
    (h : jsonObject (stringMember name value :: ms) ++ [] =
      jsonObject (stringMember name' value' :: ms') ++ []) : name = name' ∧ value = value' := by
  rw [jsonObject_cons_append, jsonObject_cons_append] at h
  obtain ⟨hname, hvalue, -⟩ := stringMember_append_inj (cons.inj h).2
  exact ⟨hname, hvalue⟩

theorem DeveloperCredentialReauthTarget.text_append_inj {t t' : DeveloperCredentialReauthTarget}
    {rest rest' : Text} (h : t.text ++ rest = t'.text ++ rest') : t = t' := by
  unfold DeveloperCredentialReauthTarget.text at h
  rw [jsonObject_cons_append, jsonObject_cons_append] at h
  simp only [flatMap_cons, cons_append, append_assoc] at h
  obtain ⟨hlifetime, h⟩ := natMember_append_inj (cons.inj h).2
  obtain ⟨hconsent, -⟩ := boolMember_append_inj h
  cases t
  cases t'
  congr

theorem SelfConfigReauthTarget.text_append_inj {t t' : SelfConfigReauthTarget}
    {rest rest' : Text} (h : t.text ++ rest = t'.text ++ rest') : t = t' := by
  unfold SelfConfigReauthTarget.text at h
  simp only [cons_append, jsonObject_cons_append, flatMap_cons, append_assoc] at h
  obtain ⟨-, haction, h⟩ := stringMember_append_inj (cons.inj h).2
  obtain ⟨-, howner, h⟩ := stringMember_append_inj (cons.inj h).2
  obtain ⟨hrevision, h⟩ := intMember_append_inj (cons.inj h).2
  obtain ⟨hschema, h⟩ := intMember_append_inj h
  obtain ⟨hgeneration, h⟩ := intMember_append_inj h
  obtain ⟨-, htoken, h⟩ := stringMember_append_inj h
  obtain ⟨-, hrecipient, h⟩ := stringMember_append_inj (cons.inj h).2
  obtain ⟨hconfirm, h⟩ := boolMember_append_inj (cons.inj h).2
  have hplan : t.planDigest = t'.planDigest := by
    by_cases hplan : t.planDigest = ""
    · by_cases hplan' : t'.planDigest = ""
      · rw [hplan, hplan']
      · rw [if_pos hplan, if_neg hplan'] at h
        exact absurd (cons.inj h).1 (by decide)
    · by_cases hplan' : t'.planDigest = ""
      · rw [if_neg hplan, if_pos hplan'] at h
        exact absurd (cons.inj h).1 (by decide)
      · rw [if_neg hplan, if_neg hplan'] at h
        have h := (cons.inj h).2
        simp only [append_eq, append_assoc] at h
        exact (stringMember_append_inj h).2.1
  cases t
  cases t'
  congr
  exact SelfConfigAction.text_injective haction

/-- **A signed text determines the decision.** -/
theorem SignedBinding.text_injective : Function.Injective SignedBinding.text := by
  intro b b' h
  have h' : b.text ++ [] = b'.text ++ [] := congrArg (· ++ []) h
  clear h
  cases b with
  | disclosure purpose env keys =>
    cases b' with
    | disclosure purpose' env' keys' =>
      simp only [SignedBinding.text, jsonObject_cons_append, flatMap_cons, append_assoc] at h'
      obtain ⟨-, hpurpose, h⟩ := stringMember_append_inj (cons.inj h').2
      obtain ⟨-, henv, h⟩ := stringMember_append_inj (cons.inj h).2
      obtain ⟨-, hkeys, -⟩ := arrayMember_append_inj (cons.inj h).2
      rw [ReauthPurpose.text_injective hpurpose, henv, hkeys]
    | adapter | developerCredential | selfConfig =>
      exact absurd (firstMember_inj h').1 (by decide)
  | adapter operation env envs =>
    cases b' with
    | adapter operation' env' envs' =>
      simp only [SignedBinding.text, jsonObject_cons_append, flatMap_cons, append_assoc] at h'
      obtain ⟨-, -, h⟩ := stringMember_append_inj (cons.inj h').2
      obtain ⟨-, hoperation, h⟩ := stringMember_append_inj (cons.inj h).2
      obtain ⟨-, henv, h⟩ := stringMember_append_inj (cons.inj h).2
      obtain ⟨-, henvs, -⟩ := arrayMember_append_inj (cons.inj h).2
      rw [ReauthOperation.text_injective hoperation, henv, henvs]
    | disclosure =>
      exact absurd (firstMember_inj h').1 (by decide)
    | developerCredential | selfConfig =>
      exact absurd (firstMember_inj h').2 (by decide)
  | developerCredential env keys target =>
    cases b' with
    | developerCredential env' keys' target' =>
      simp only [SignedBinding.text, jsonObject_cons_append, flatMap_cons, append_assoc] at h'
      obtain ⟨-, -, h⟩ := stringMember_append_inj (cons.inj h').2
      obtain ⟨-, henv, h⟩ := stringMember_append_inj (cons.inj h).2
      obtain ⟨-, hkeys, h⟩ := arrayMember_append_inj (cons.inj h).2
      obtain ⟨-, htarget⟩ := rawMember_append_inj (cons.inj h).2
      rw [henv, hkeys, DeveloperCredentialReauthTarget.text_append_inj htarget]
    | disclosure =>
      exact absurd (firstMember_inj h').1 (by decide)
    | adapter | selfConfig =>
      exact absurd (firstMember_inj h').2 (by decide)
  | selfConfig env target =>
    cases b' with
    | selfConfig env' target' =>
      simp only [SignedBinding.text, jsonObject_cons_append, flatMap_cons, append_assoc] at h'
      obtain ⟨-, -, h⟩ := stringMember_append_inj (cons.inj h').2
      obtain ⟨-, henv, h⟩ := stringMember_append_inj (cons.inj h).2
      obtain ⟨-, htarget⟩ := rawMember_append_inj (cons.inj h).2
      rw [henv, SelfConfigReauthTarget.text_append_inj htarget]
    | disclosure =>
      exact absurd (firstMember_inj h').1 (by decide)
    | adapter | developerCredential =>
      exact absurd (firstMember_inj h').2 (by decide)

/-! ## Sets of identifiers -/

/-- `slices.Sorted`. -/
def sortedIDs (ids : List String) : List String := ids.insertionSort (· ≤ ·)

/-- `slices.Compact`: adjacent repetitions removed. -/
def compactIDs : List String → List String
  | [] => []
  | [a] => [a]
  | a :: b :: rest => if a = b then compactIDs (b :: rest) else a :: compactIDs (b :: rest)

def canonicalSet (ids : List String) : List String := compactIDs (sortedIDs ids)

/-- `strings.Join` with line feeds. -/
def joinLines : List String → String
  | [] => ""
  | [a] => a
  | a :: b :: rest => a ++ "\n" ++ joinLines (b :: rest)

/-- `strings.Split` at line feeds, on the characters. -/
def splitLinesAux : Text → List Text
  | [] => [[]]
  | c :: rest =>
    if c = '\n' then [] :: splitLinesAux rest
    else
      match splitLinesAux rest with
      | [] => [[c]]
      | part :: parts => (c :: part) :: parts

def splitLines (joined : String) : List String := (splitLinesAux joined.toList).map String.ofList

/-- The one spelling of a set of keys. -/
def canonicalKeySet (keyIDs : List String) : String := joinLines (sortedIDs keyIDs)

/-! ## Intents -/

/-- Why a reauthentication is refused. -/
inductive ReauthError where
  | unauthenticated
  | unauthorized
  | invalid (detail : String)
  | noReauthWindow
  | reauthWindowExpired
  | reauthUnitMismatch
  | reauthWindowSpent
  | reauthWindowClosed
  | reauthRequired
  | noTOTPFactor
  | totpStepAlreadyUsed
  | noWebAuthnCeremony
  | cliReauthInvalid
  /-- a refused workspace handoff, with the cause on the trail -/
  | handoffInvalid (cause : String)
  | protectedWindowCap
  | negativeWindow
  | environmentSettingsRace
  | noReauthHardCap
  | conflict
deriving DecidableEq, Repr

/-- **The closed form of one decision.** -/
structure ReauthIntent where
  variant : IntentVariant
  /-- the binding of an exact decision: an act on the instance's configuration or the
  minting of a developer credential -/
  exactBinding : Option SignedBinding
  environmentID : String
  environmentIDs : List String
  keyIDs : List String
  keySet : String
  environmentSet : String
deriving DecidableEq, Repr

/-- Everything that is derived from an intent. -/
structure ReauthIntentBinding where
  purpose : Option ReauthPurpose
  operation : Option ReauthOperation
  environmentID : String
  keyIDs : List String
  keySet : String
  environmentIDs : List String
  environmentSet : String
  /-- what is signed; none for an unbound intent -/
  challengeBinding : Option SignedBinding
deriving DecidableEq, Repr

namespace ReauthIntent

def isDeveloperCredential (i : ReauthIntent) : Bool := i.variant = .developerCredential

def isSelfConfig (i : ReauthIntent) : Bool :=
  i.variant = .selfConfigAdopt ∨ i.variant = .selfConfigApply ∨ i.variant = .selfConfigTest

def isUnbound (i : ReauthIntent) : Bool := i.variant = .unbound

def isAdapter (i : ReauthIntent) : Bool :=
  match descriptorForVariant i.variant with
  | some d => d.adapter
  | none => false

end ReauthIntent

def newDisclosureReauthIntent (variant : IntentVariant) (environmentIDs keyIDs : List String) :
    Except ReauthError ReauthIntent :=
  let canonicalEnvironments := canonicalSet environmentIDs
  match canonicalEnvironments with
  | [] => .error (.invalid "reauthentication intent requires an environment")
  | env :: rest =>
    if "" ∈ canonicalEnvironments then
      .error (.invalid "reauthentication intent contains an empty environment")
    else if rest ≠ [] then
      .error (.invalid "disclosure reauthentication covers exactly one environment")
    else .ok
      { variant, exactBinding := none, environmentID := env,
        environmentIDs := canonicalEnvironments, keyIDs := sortedIDs keyIDs,
        keySet := canonicalKeySet keyIDs, environmentSet := joinLines canonicalEnvironments }

def newUnboundReauthIntent (environmentID : String) : Except ReauthError ReauthIntent :=
  newDisclosureReauthIntent .unbound [environmentID] []

/-- A disclosure, from the purpose on the wire. -/
def newDisclosureReauthIntentFor (purpose : ReauthPurpose) (environmentIDs keyIDs : List String) :
    Except ReauthError ReauthIntent :=
  if purpose = .adapter ∨ purpose = .selfConfig ∨ purpose = .developerCredential then
    .error (.invalid "adapter reauthentication requires an adapter intent")
  else
    match disclosureDescriptorForPurpose purpose with
    | none => .error (.invalid "unknown reauthentication purpose")
    | some d => newDisclosureReauthIntent d.variant environmentIDs keyIDs

def newReauthIntentForOperation (operation : ReauthOperation) (environmentID : String)
    (keyIDs : List String) : Except ReauthError ReauthIntent :=
  match descriptorForOperation operation with
  | none => .error (.invalid "unknown reauthentication operation")
  | some d =>
    if d.adapter then .error (.invalid "unknown reauthentication operation")
    else newDisclosureReauthIntent d.variant [environmentID] keyIDs

def newAdapterReauthIntent (variant : IntentVariant) (environmentIDs : List String) :
    Except ReauthError ReauthIntent :=
  let canonical := canonicalSet environmentIDs
  match canonical with
  | [] => .error (.invalid "adapter reauthentication intent requires environments")
  | env :: _ =>
    if "" ∈ canonical then
      .error (.invalid "adapter reauthentication intent contains an empty environment")
    else .ok
      { variant, exactBinding := none, environmentID := env, environmentIDs := canonical,
        keyIDs := [], keySet := "", environmentSet := joinLines canonical }

def newReauthIntentForAdapterOperation (operation : ReauthOperation)
    (environmentIDs : List String) : Except ReauthError ReauthIntent :=
  match descriptorForOperation operation with
  | none => .error .reauthUnitMismatch
  | some d =>
    if d.adapter then newAdapterReauthIntent d.variant environmentIDs
    else .error .reauthUnitMismatch

/-- A key count, a lifetime of whole seconds up to eight hours, and the consent. -/
def maxKeysPerProjectCeiling : ℕ := 10000
def secondNanos : ℕ := 1000000000

def newDeveloperCredentialReauthIntent (digest : Text → String) (environmentID : String)
    (keyIDs : List String) (lifetime : ℕ) (consent : Bool) : Except ReauthError ReauthIntent := do
  Tx.ensure (keyIDs.length ≤ maxKeysPerProjectCeiling ∧ 0 < lifetime ∧
    lifetime ≤ 8 * 3600 * secondNanos ∧ lifetime % secondNanos = 0 ∧ consent = true) (.invalid "")
  let intent ← newDisclosureReauthIntent .developerCredential [environmentID] (canonicalSet keyIDs)
  let binding := SignedBinding.developerCredential environmentID intent.keyIDs ⟨lifetime, consent⟩
  return { intent with exactBinding := some binding, keySet := digest binding.text }

def SelfConfigReauthTarget.variant (t : SelfConfigReauthTarget) : Option IntentVariant :=
  match t.action with
  | .adopt =>
    if t.previewToken = "" ∨ t.revision ≠ 0 ∨ t.expectedGeneration ≠ 0 ∨ t.recipient ≠ "" ∨
      t.confirmRestoredCredentials then none else some .selfConfigAdopt
  | .apply =>
    if t.revision < 1 ∨ t.previewToken ≠ "" ∨ t.recipient ≠ "" then none else some .selfConfigApply
  | .rolloutRestore =>
    if t.revision < 1 ∨ t.expectedGeneration < 1 ∨ t.planDigest = "" ∨ t.previewToken ≠ "" ∨
      t.recipient ≠ "" ∨ t.confirmRestoredCredentials then none else some .selfConfigApply
  | .mailTest =>
    if t.revision < 1 ∨ t.previewToken ≠ "" ∨ t.recipient = "" ∨ t.confirmRestoredCredentials then none
    else some .selfConfigTest

/-- A digest is written as 64 lower-case hexadecimal digits. -/
def isDigest (text : String) : Bool :=
  text.toList.length = 64 ∧ text.toList.all fun c => ('0' ≤ c ∧ c ≤ '9') ∨ ('a' ≤ c ∧ c ≤ 'f')

def newSelfConfigReauthIntent (digest : Text → String) (target : SelfConfigReauthTarget) :
    Except ReauthError ReauthIntent := do
  Tx.ensure (¬ (target.ownerInstanceID = "" ∨ '\r' ∈ target.ownerInstanceID.toList ∨
    '\n' ∈ target.ownerInstanceID.toList ∨ target.schemaVersion < 1 ∨
    target.expectedGeneration < 0)) (.invalid "")
  Tx.ensure (¬ (target.planDigest ≠ "" ∧ (!isDigest target.planDigest ∨
    (target.action ≠ .apply ∧ target.action ≠ .rolloutRestore)))) (.invalid "")
  match target.variant with
  | none => throw (.invalid "")
  | some variant =>
    let slot := "instance:" ++ target.ownerInstanceID
    let binding := SignedBinding.selfConfig slot target
    return { variant, exactBinding := some binding, environmentID := slot, environmentIDs := [slot],
             keyIDs := [], keySet := digest binding.text, environmentSet := slot }

/-- **Everything that is stored or signed for an intent.** An adapter's ceremony also
names the environment of its set that it is for. -/
def ReauthIntent.bindingFor (i : ReauthIntent) (adapterEnvironmentID : String) :
    Except ReauthError ReauthIntentBinding :=
  let plain : ReauthIntentBinding :=
    { purpose := none, operation := none, environmentID := i.environmentID, keyIDs := i.keyIDs,
      keySet := i.keySet, environmentIDs := [], environmentSet := "", challengeBinding := none }
  match descriptorForVariant i.variant with
  | none => .error (.invalid "unknown reauthentication intent variant")
  | some d =>
    if d.variant = .unbound then .ok plain
    else
      let binding := { plain with purpose := d.purpose, operation := d.operation }
      if i.isDeveloperCredential || i.isSelfConfig then
        if adapterEnvironmentID ≠ "" ∧ adapterEnvironmentID ≠ i.environmentID then
          .error .reauthUnitMismatch
        else .ok { binding with challengeBinding := i.exactBinding }
      else if d.adapter then
        let env := if adapterEnvironmentID = "" then i.environmentID else adapterEnvironmentID
        match d.operation with
        | none => .error .reauthUnitMismatch
        | some operation =>
          if env = "" ∨ env ∉ i.environmentIDs then .error .reauthUnitMismatch
          else .ok { binding with
            environmentIDs := i.environmentIDs, environmentSet := i.environmentSet,
            environmentID := env,
            challengeBinding := some (.adapter operation env (canonicalSet i.environmentIDs)) }
      else if adapterEnvironmentID ≠ "" ∧ adapterEnvironmentID ≠ i.environmentID then
        .error .reauthUnitMismatch
      else
        match d.purpose with
        | none => .error (.invalid "unknown reauthentication purpose")
        | some purpose => .ok { binding with
            challengeBinding := some (.disclosure purpose i.environmentID (sortedIDs i.keyIDs)) }

/-- One environment of a canonical set. -/
def ReauthIntent.forEnvironment (i : ReauthIntent) (environmentID : String) :
    Except ReauthError ReauthIntent :=
  if environmentID ∈ i.environmentIDs then .ok { i with environmentID }
  else .error .reauthUnitMismatch

def newReauthIntentFromBinding (purpose : ReauthPurpose) (operation : ReauthOperation)
    (environmentIDs keyIDs : List String) : Except ReauthError ReauthIntent := do
  let intent ←
    if purpose = .adapter then
      if keyIDs ≠ [] then .error .reauthUnitMismatch
      else newReauthIntentForAdapterOperation operation environmentIDs
    else newDisclosureReauthIntentFor purpose environmentIDs keyIDs
  match intent.bindingFor (environmentIDs.headD "") with
  | .error _ => .error .reauthUnitMismatch
  | .ok binding =>
    if binding.purpose ≠ some purpose ∨ binding.operation ≠ some operation then
      .error .reauthUnitMismatch
    else .ok intent

end Hikyo.Reauth
