import Hikyo.Lib.LengthPrefix
import Hikyo.Lib.Transactions

/-!
# Associated data

Every ciphertext is bound to the row it belongs to by its associated data: the
record's header followed by the fields of one schema, each written as a
big-endian 32-bit length and its bytes. There is one schema for each kind of
envelope – values, wrapped keys of three kinds, project and instance fields,
the offline snapshot and transit – and one of them has a tail of three optional
fields.

This module has the byte format (`be32`, `appendLP`, `appendAAD`), the schemas,
and their injectivity: the bytes determine the value, whatever the fields hold
(`AAD.eq_of_fields`). A Go string is a sequence of bytes, so
the string fields of the schemas are `Bytes`.
-/

namespace Hikyo

open List
open Tx (ensure ensure_eq_ok except_bind_eq_ok)

/-- A byte slice, or a Go string. -/
abbrev Bytes := List UInt8

/-- The bytes of a string. -/
def utf8 (s : String) : Bytes := s.toList.flatMap String.utf8EncodeChar

/-- How an operation of the package fails. -/
inductive CryptoError where
  /-- the uniform decrypt failure -/
  | decrypt
  /-- a record at a format version this build does not know -/
  | unknownFormat (format : UInt8)
  /-- the source of randomness gave too little -/
  | randomnessUnavailable
  /-- the cipher refuses the key for its length -/
  | badKeyLength
  /-- the panic on a field that has no 32-bit length -/
  | fieldExceedsUint32
  /-- the associated data names another project than the sealer's -/
  | sealerScope
  /-- a project sealer does not handle the kind -/
  | sealerKind (kind : UInt8)
deriving DecidableEq, Repr

/-! ## The byte format -/

/-- Four bytes, the highest first. -/
def be32 (v : UInt32) : Bytes :=
  [UInt8.ofNat (v.toNat / 2 ^ 24), UInt8.ofNat (v.toNat / 2 ^ 16),
    UInt8.ofNat (v.toNat / 2 ^ 8), UInt8.ofNat v.toNat]

/-- The number the first four bytes stand for. Callers check that there are four. -/
def uint32 : Bytes → UInt32
  | b₀ :: b₁ :: b₂ :: b₃ :: _ =>
    UInt32.ofNat (b₀.toNat * 2 ^ 24 + b₁.toNat * 2 ^ 16 + b₂.toNat * 2 ^ 8 + b₃.toNat)
  | _ => 0

/-- Append a field behind its length. -/
def appendLP (dst field : Bytes) : Except CryptoError Bytes := do
  ensure (field.length < 2 ^ 32) .fieldExceedsUint32
  return dst ++ be32 (UInt32.ofNat field.length) ++ field

@[simp] theorem length_be32 (v : UInt32) : (be32 v).length = 4 := rfl

@[simp] theorem uint32_be32_append (v : UInt32) (rest : Bytes) : uint32 (be32 v ++ rest) = v := by
  have hv : v.toNat < 2 ^ 32 := v.toNat_lt
  show UInt32.ofNat ((UInt8.ofNat (v.toNat / 2 ^ 24)).toNat * 2 ^ 24
    + (UInt8.ofNat (v.toNat / 2 ^ 16)).toNat * 2 ^ 16
    + (UInt8.ofNat (v.toNat / 2 ^ 8)).toNat * 2 ^ 8 + (UInt8.ofNat v.toNat).toNat) = v
  simp only [UInt8.toNat_ofNat']
  -- the four digits to base 256 sum up to the number
  have hsum : v.toNat / 2 ^ 24 % 2 ^ 8 * 2 ^ 24 + v.toNat / 2 ^ 16 % 2 ^ 8 * 2 ^ 16
      + v.toNat / 2 ^ 8 % 2 ^ 8 * 2 ^ 8 + v.toNat % 2 ^ 8 = v.toNat := by omega
  rw [hsum, UInt32.ofNat_toNat]

theorem uint32_be32 (v : UInt32) : uint32 (be32 v) = v := by
  simpa using uint32_be32_append v []

theorem be32_injective : Function.Injective be32 :=
  Function.LeftInverse.injective uint32_be32

/-- The 32-bit lengths, as a length code. -/
def lp : LengthCode UInt8 where
  width := 4
  bound := 2 ^ 32
  encode n := be32 (UInt32.ofNat n)
  decode b := (uint32 b).toNat
  width_pos := by decide
  length_encode _ := rfl
  decode_encode n hn := by
    rw [uint32_be32]
    exact UInt32.toNat_ofNat_of_lt' hn

theorem appendLP_eq_ok {dst field out : Bytes} :
    appendLP dst field = .ok out ↔ field.length < lp.bound ∧ out = dst ++ lp.field field := by
  unfold appendLP
  simp only [except_bind_eq_ok, ensure_eq_ok, exists_and_left, pure, Except.pure,
    Except.ok.injEq, append_assoc]
  exact and_congr_right fun _ => ⟨fun h => h.elim fun _ hout => hout.symm, fun hout => ⟨(), hout.symm⟩⟩

/-! ## The schemas -/

/-- The envelope kind byte. It selects the schema. -/
abbrev Kind := UInt8

def kindValue : Kind := 1
def kindWrappedDEK : Kind := 2
def kindWrappedMaster : Kind := 3
def kindWrappedTokenKey : Kind := 4
def kindProjectField : Kind := 5
def kindInstanceField : Kind := 6
def kindComposeSnapshot : Kind := 7
def kindTransit : Kind := 8

/-- Binds a stored value to exactly one row. -/
structure ValueAAD where
  orgID : Bytes
  projectID : Bytes
  envID : Bytes
  keyID : Bytes
  rowID : Bytes
  fieldTag : Bytes
deriving DecidableEq, Repr

def ValueAAD.fields (a : ValueAAD) : List Bytes :=
  [a.orgID, a.projectID, a.envID, a.keyID, a.rowID, a.fieldTag]

/-- Tier-3 keys wrapped by the master key. -/
structure WrappedDEKAAD where
  orgID : Bytes
  projectID : Bytes
  dekID : Bytes
  dekVersion : UInt32
  masterKeyVersion : UInt32
deriving DecidableEq, Repr

def WrappedDEKAAD.fields (a : WrappedDEKAAD) : List Bytes :=
  [a.orgID, a.projectID, a.dekID, be32 a.dekVersion, be32 a.masterKeyVersion]

/-- The master key wrapped by the operator root. -/
structure WrappedMasterAAD where
  masterKeyVersion : UInt32
  rootKeyEpoch : UInt32
deriving DecidableEq, Repr

def WrappedMasterAAD.fields (a : WrappedMasterAAD) : List Bytes :=
  [be32 a.masterKeyVersion, be32 a.rootKeyEpoch]

/-- The root token key wrapped by the master key. -/
structure WrappedTokenKeyAAD where
  tokenKeyVersion : UInt32
  masterKeyVersion : UInt32
deriving DecidableEq, Repr

def WrappedTokenKeyAAD.fields (a : WrappedTokenKeyAAD) : List Bytes :=
  [be32 a.tokenKeyVersion, be32 a.masterKeyVersion]

/-- Project-scoped sensitive fields outside the value table. The last three
coordinates are optional. -/
structure ProjectFieldAAD where
  orgID : Bytes
  projectID : Bytes
  ownerTable : Bytes
  ownerRowID : Bytes
  fieldTag : Bytes
  environmentID : Bytes
  keyID : Bytes
  snapshotID : Bytes
deriving DecidableEq, Repr

/-- The optional coordinates are written only when at least one is present. -/
def ProjectFieldAAD.fields (a : ProjectFieldAAD) : List Bytes :=
  let fields := [a.orgID, a.projectID, a.ownerTable, a.ownerRowID, a.fieldTag]
  if a.environmentID = [] ∧ a.keyID = [] ∧ a.snapshotID = [] then fields
  else fields ++ [a.environmentID, a.keyID, a.snapshotID]

/-- Instance-scoped sensitive fields. -/
structure InstanceFieldAAD where
  ownerTable : Bytes
  ownerRowID : Bytes
  fieldTag : Bytes
deriving DecidableEq, Repr

def InstanceFieldAAD.fields (a : InstanceFieldAAD) : List Bytes :=
  [a.ownerTable, a.ownerRowID, a.fieldTag]

/-- A transit ciphertext: one key in one environment and the caller's context. -/
structure TransitAAD where
  orgID : Bytes
  projectID : Bytes
  envID : Bytes
  keyID : Bytes
  context : Bytes
deriving DecidableEq, Repr

def TransitAAD.fields (a : TransitAAD) : List Bytes :=
  [a.orgID, a.projectID, a.envID, a.keyID, a.context]

/-- The closed set of schemas. -/
inductive AAD where
  | value (a : ValueAAD)
  | wrappedDEK (a : WrappedDEKAAD)
  | wrappedMaster (a : WrappedMasterAAD)
  | wrappedTokenKey (a : WrappedTokenKeyAAD)
  | projectField (a : ProjectFieldAAD)
  | instanceField (a : InstanceFieldAAD)
  /-- the canonical header of the offline snapshot, as one field -/
  | raw (header : Bytes)
  | transit (a : TransitAAD)
deriving DecidableEq, Repr

namespace AAD

def kind : AAD → Kind
  | value _ => kindValue
  | wrappedDEK _ => kindWrappedDEK
  | wrappedMaster _ => kindWrappedMaster
  | wrappedTokenKey _ => kindWrappedTokenKey
  | projectField _ => kindProjectField
  | instanceField _ => kindInstanceField
  | raw _ => kindComposeSnapshot
  | transit _ => kindTransit

def fields : AAD → List Bytes
  | value a => a.fields
  | wrappedDEK a => a.fields
  | wrappedMaster a => a.fields
  | wrappedTokenKey a => a.fields
  | projectField a => a.fields
  | instanceField a => a.fields
  | raw header => [header]
  | transit a => a.fields

end AAD

/-- The whole associated data of a record: the header, then the fields. -/
def appendAAD (header : Bytes) (a : AAD) : Except CryptoError Bytes :=
  a.fields.foldlM appendLP header

/-! ## Injectivity -/

theorem WrappedDEKAAD.fields_injective : Function.Injective WrappedDEKAAD.fields := by
  rintro ⟨_, _, _, v, m⟩ ⟨_, _, _, v', m'⟩ h
  simp only [WrappedDEKAAD.fields, cons.injEq, be32_injective.eq_iff, and_true] at h
  obtain ⟨rfl, rfl, rfl, rfl, rfl⟩ := h
  rfl

theorem WrappedMasterAAD.fields_injective : Function.Injective WrappedMasterAAD.fields := by
  rintro ⟨v, e⟩ ⟨v', e'⟩ h
  simp only [WrappedMasterAAD.fields, cons.injEq, be32_injective.eq_iff, and_true] at h
  obtain ⟨rfl, rfl⟩ := h
  rfl

theorem WrappedTokenKeyAAD.fields_injective : Function.Injective WrappedTokenKeyAAD.fields := by
  rintro ⟨v, m⟩ ⟨v', m'⟩ h
  simp only [WrappedTokenKeyAAD.fields, cons.injEq, be32_injective.eq_iff, and_true] at h
  obtain ⟨rfl, rfl⟩ := h
  rfl

/-- **The optional tail is not ambiguous.** With the tail there are eight
fields and one of the last three is present; without it there are five and all
three are absent. -/
theorem ProjectFieldAAD.fields_injective : Function.Injective ProjectFieldAAD.fields := by
  rintro ⟨_, _, _, _, _, e, k, s⟩ ⟨_, _, _, _, _, e', k', s'⟩ h
  simp only [ProjectFieldAAD.fields] at h
  split at h <;> split at h
  case isTrue.isTrue htail htail' =>
    obtain ⟨rfl, rfl, rfl⟩ := htail
    obtain ⟨rfl, rfl, rfl⟩ := htail'
    simp only [cons.injEq, and_true] at h
    obtain ⟨rfl, rfl, rfl, rfl, rfl⟩ := h
    rfl
  case isTrue.isFalse => exact absurd (congrArg List.length h) (of_decide_eq_false rfl)
  case isFalse.isTrue => exact absurd (congrArg List.length h) (of_decide_eq_false rfl)
  case isFalse.isFalse =>
    simp only [cons_append, nil_append, cons.injEq, and_true] at h
    obtain ⟨rfl, rfl, rfl, rfl, rfl, rfl, rfl, rfl⟩ := h
    rfl

/-- **A value of a schema is determined by its kind and its fields.** -/
theorem AAD.eq_of_fields {a b : AAD} (hkind : a.kind = b.kind) (hfields : a.fields = b.fields) :
    a = b := by
  cases a <;> cases b <;> first | exact absurd hkind (of_decide_eq_false rfl) | skip
  case value.value a b =>
    obtain ⟨⟩ := a
    obtain ⟨⟩ := b
    simpa [AAD.fields, ValueAAD.fields] using hfields
  case wrappedDEK.wrappedDEK => exact congrArg _ (WrappedDEKAAD.fields_injective hfields)
  case wrappedMaster.wrappedMaster => exact congrArg _ (WrappedMasterAAD.fields_injective hfields)
  case wrappedTokenKey.wrappedTokenKey =>
    exact congrArg _ (WrappedTokenKeyAAD.fields_injective hfields)
  case projectField.projectField => exact congrArg _ (ProjectFieldAAD.fields_injective hfields)
  case instanceField.instanceField a b =>
    obtain ⟨⟩ := a
    obtain ⟨⟩ := b
    simpa [AAD.fields, InstanceFieldAAD.fields] using hfields
  case raw.raw => exact congrArg _ (cons.inj hfields).1
  case transit.transit a b =>
    obtain ⟨⟩ := a
    obtain ⟨⟩ := b
    simpa [AAD.fields, TransitAAD.fields] using hfields

theorem foldlM_appendLP_eq_ok (fields : List Bytes) :
    ∀ {dst out : Bytes}, fields.foldlM appendLP dst = .ok out ↔
      (∀ f ∈ fields, f.length < lp.bound) ∧ out = dst ++ lp.fields fields := by
  induction fields with
  | nil =>
    intro dst out
    simp [pure, Except.pure, eq_comm]
  | cons f fields ih =>
    intro dst out
    rw [foldlM_cons, except_bind_eq_ok]
    simp only [appendLP_eq_ok, ih, forall_mem_cons, LengthCode.fields_cons]
    constructor
    · rintro ⟨_, ⟨hf, rfl⟩, hfs, rfl⟩
      exact ⟨⟨hf, hfs⟩, by rw [append_assoc]⟩
    · rintro ⟨⟨hf, hfs⟩, rfl⟩
      exact ⟨_, ⟨hf, rfl⟩, hfs, by rw [append_assoc]⟩

theorem appendAAD_eq_ok {header out : Bytes} {a : AAD} : appendAAD header a = .ok out ↔
      (∀ f ∈ a.fields, f.length < lp.bound) ∧ out = header ++ lp.fields a.fields :=
  foldlM_appendLP_eq_ok a.fields

end Hikyo
