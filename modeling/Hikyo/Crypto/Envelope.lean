import Hikyo.Crypto.AAD

/-!
# The ciphertext envelope

A record is a header – format, kind, algorithm, the wrapping key's name and
version, the nonce – followed by the output of the cipher. The header is part of
the associated data, so no field of it can be edited on its own.

The module has the writer and the reader of the header (`appendHeader`,
`parseHeader`), the two operations `sealRecord` and `openRecord` over a cipher
given as a parameter, and what they guarantee. The header reads back whatever
follows it (`parseHeader_append`). Under an ideal cipher – one that opens
nothing but what was sealed – a record opens under the name, the version and
the associated data it was sealed with and under no others
(`openRecord_sealed_iff`): a ciphertext that is moved to another row, column,
project or key version is dead.
-/

namespace Hikyo

open List
open Tx (ensure ensure_eq_ok ensure_of ensure_of_not bind_ok except_bind_eq_ok)

/-- The only format version this build writes or reads. -/
def formatV1 : UInt8 := 1

/-- The only algorithm of that format. -/
def algXChaCha20Poly1305 : UInt8 := 1

/-- The size of every key. -/
def keySize : ℕ := 32

/-- The size of a nonce. -/
def nonceSizeX : ℕ := 24

structure Header where
  format : UInt8
  kind : Kind
  alg : UInt8
  keyID : Bytes
  keyVersion : UInt32
  nonce : Bytes
deriving DecidableEq, Repr

def appendHeader (dst : Bytes) (h : Header) : Except CryptoError Bytes := do
  let dst ← appendLP (dst ++ [h.format, h.kind, h.alg]) h.keyID
  appendLP (dst ++ be32 h.keyVersion) h.nonce

/-- Read a length-prefixed field at a position; the field and the position
behind it. -/
def readLP (buf : Bytes) (pos : ℕ) : Except CryptoError (Bytes × ℕ) := do
  ensure (¬ pos + 4 > buf.length) .decrypt
  let n := (uint32 (buf.drop pos)).toNat
  ensure (¬ pos + 4 + n > buf.length) .decrypt
  return ((buf.drop (pos + 4)).take n, pos + 4 + n)

/-- Decode a record's header with strict bounds; the header and the number of
bytes it takes. -/
def parseHeader (record : Bytes) : Except CryptoError (Header × ℕ) :=
  match record with
  | format :: kind :: alg :: _ => do
    ensure (format = formatV1) (.unknownFormat format)
    let (keyID, pos) ← readLP record 3
    ensure (¬ pos + 4 > record.length) .decrypt
    let keyVersion := uint32 (record.drop pos)
    let (nonce, pos) ← readLP record (pos + 4)
    return (⟨format, kind, alg, keyID, keyVersion, nonce⟩, pos)
  | _ => .error .decrypt

/-- The wrapping-key version a record's header names, without opening it. -/
def recordKeyVersion (record : Bytes) : Except CryptoError UInt32 := do
  let (h, _) ← parseHeader record
  return h.keyVersion

/-- The authenticated cipher: key, nonce, plaintext or ciphertext, associated
data. -/
structure Aead where
  /-- encrypt -/
  sealBytes : Bytes → Bytes → Bytes → Bytes → Bytes
  /-- decrypt, or refuse -/
  openBytes : Bytes → Bytes → Bytes → Bytes → Option Bytes

/-- The header of a record sealed with the randomness `rnd`. -/
def sealHeader (rnd keyID : Bytes) (keyVersion : UInt32) (a : AAD) : Header :=
  ⟨formatV1, a.kind, algXChaCha20Poly1305, keyID, keyVersion, rnd.take nonceSizeX⟩

/-- Encrypt under `key` with a fresh nonce from `rnd`; `keyID` and `keyVersion`
name the key in the authenticated header. -/
def sealRecord (A : Aead) (rnd key keyID : Bytes) (keyVersion : UInt32) (a : AAD)
    (plaintext : Bytes) : Except CryptoError Bytes := do
  ensure (nonceSizeX ≤ rnd.length) .randomnessUnavailable
  ensure (key.length = keySize) .badKeyLength
  let h := sealHeader rnd keyID keyVersion a
  let record ← appendHeader [] h
  let aad ← appendAAD record a
  return record ++ A.sealBytes key h.nonce plaintext aad

/-- Decrypt a record, requiring the header to name exactly the expected kind,
key and version, and the associated data to match the caller's. -/
def openRecord (A : Aead) (key keyID : Bytes) (keyVersion : UInt32) (a : AAD)
    (record : Bytes) : Except CryptoError Bytes := do
  let (h, n) ← parseHeader record
  ensure (¬ (h.kind ≠ a.kind ∨ h.alg ≠ algXChaCha20Poly1305 ∨ h.keyID ≠ keyID ∨
    h.keyVersion ≠ keyVersion ∨ h.nonce.length ≠ nonceSizeX)) .decrypt
  ensure (key.length = keySize) .badKeyLength
  let aad ← appendAAD (record.take n) a
  match A.openBytes key h.nonce (record.drop n) aad with
  | some plaintext => .ok plaintext
  | none => .error .decrypt

/-! ## The header -/

/-- The bytes of a header. -/
def Header.bytes (h : Header) : Bytes :=
  [h.format, h.kind, h.alg] ++ (lp.field h.keyID ++ (be32 h.keyVersion ++ lp.field h.nonce))

/-- Both variable fields of the header have a 32-bit length. -/
def Header.Short (h : Header) : Prop :=
  h.keyID.length < lp.bound ∧ h.nonce.length < lp.bound

variable {h : Header}

theorem appendHeader_eq_ok {dst out : Bytes} :
    appendHeader dst h = .ok out ↔ h.Short ∧ out = dst ++ h.bytes := by
  unfold appendHeader
  simp only [except_bind_eq_ok, appendLP_eq_ok]
  constructor
  · rintro ⟨_, ⟨hkey, rfl⟩, hnonce, rfl⟩
    exact ⟨⟨hkey, hnonce⟩, by simp only [Header.bytes, append_assoc]⟩
  · rintro ⟨⟨hkey, hnonce⟩, rfl⟩
    exact ⟨_, ⟨hkey, rfl⟩, hnonce, by simp only [Header.bytes, append_assoc]⟩

/-- **A header is determined by its bytes**, whatever follows them. -/
theorem Header.bytes_append_inj {h' : Header} (hs : h.Short) (hs' : h'.Short)
    {rest rest' : Bytes} (heq : h.bytes ++ rest = h'.bytes ++ rest') : h = h' ∧ rest = rest' := by
  obtain ⟨format, kind, alg, keyID, v, nonce⟩ := h
  obtain ⟨format', kind', alg', keyID', v', nonce'⟩ := h'
  simp only [Header.bytes, append_assoc, cons_append, nil_append, cons.injEq] at heq
  obtain ⟨rfl, rfl, rfl, hfields⟩ := heq
  have hkey : keyID = keyID' ∧ _ := lp.field_append_inj hs.1 hs'.1 hfields
  obtain ⟨hv, htail⟩ := List.append_inj hkey.2 rfl
  have hnonce : nonce = nonce' ∧ rest = rest' := lp.field_append_inj hs.2 hs'.2 htail
  rw [hkey.1, be32_injective hv, hnonce.1]
  exact ⟨rfl, hnonce.2⟩

/-- Only the first four bytes matter. -/
theorem uint32_take (buf : Bytes) : uint32 (buf.take 4) = uint32 buf := by
  match buf with
  | [] | [_] | [_, _] | [_, _, _] | _ :: _ :: _ :: _ :: _ => rfl

/-- Reading at a position is reading what stands there. -/
theorem readLP_append (pre buf : Bytes) : readLP (pre ++ buf) pre.length =
      match lp.read buf with
      | some (x, _) => .ok (x, pre.length + 4 + x.length)
      | none => .error .decrypt := by
  unfold readLP LengthCode.read
  rw [length_append, drop_left, ← drop_drop, drop_left]
  show _ = match (if buf.length < 4 then none else
      if (buf.drop 4).length < (uint32 (buf.take 4)).toNat then none
      else some ((buf.drop 4).take (uint32 (buf.take 4)).toNat,
        (buf.drop 4).drop (uint32 (buf.take 4)).toNat)) with
    | some (x, _) => Except.ok (x, pre.length + 4 + x.length)
    | none => .error CryptoError.decrypt
  rw [uint32_take, length_drop]
  by_cases hwidth : buf.length < 4
  · rw [if_pos hwidth, ensure_of_not (by omega)]
    rfl
  · rw [if_neg hwidth, ensure_of (by omega)]
    show (do
      ensure (¬ pre.length + 4 + (uint32 buf).toNat > pre.length + buf.length)
        CryptoError.decrypt
      pure ((buf.drop 4).take (uint32 buf).toNat, pre.length + 4 + (uint32 buf).toNat)) = _
    by_cases hlen : buf.length - 4 < (uint32 buf).toNat
    · rw [if_pos hlen, ensure_of_not (by omega)]
      rfl
    · rw [if_neg hlen, ensure_of (by omega)]
      show Except.ok _ = Except.ok _
      rw [length_take, length_drop, Nat.min_eq_left (by omega)]

theorem readLP_field {pre x rest : Bytes} (hx : x.length < lp.bound) :
    readLP (pre ++ (lp.field x ++ rest)) pre.length = .ok (x, (pre ++ lp.field x).length) := by
  rw [readLP_append, lp.read_field_append hx]
  show Except.ok _ = Except.ok _
  rw [length_append, lp.length_field]
  show Except.ok (x, pre.length + 4 + x.length) = .ok (x, pre.length + (4 + x.length))
  rw [Nat.add_assoc]

/-- The reader on a record whose two fields can be read. -/
theorem parseHeader_of_reads {kind : Kind} {alg : UInt8} {tail keyID nonce : Bytes} {pos n : ℕ}
    (hkey : readLP (formatV1 :: kind :: alg :: tail) 3 = .ok (keyID, pos))
    (hfits : pos + 4 ≤ (formatV1 :: kind :: alg :: tail).length)
    (hnonce : readLP (formatV1 :: kind :: alg :: tail) (pos + 4) = .ok (nonce, n)) :
    parseHeader (formatV1 :: kind :: alg :: tail) =
      .ok (⟨formatV1, kind, alg, keyID,
        uint32 ((formatV1 :: kind :: alg :: tail).drop pos), nonce⟩, n) := by
  unfold parseHeader
  dsimp only
  rw [hkey]
  show (do
    ensure (¬ pos + 4 > _) CryptoError.decrypt
    let r ← readLP (formatV1 :: kind :: alg :: tail) (pos + 4)
    pure ((⟨formatV1, kind, alg, keyID, _, r.1⟩ : Header), r.2)) = _
  rw [hnonce, ensure_of (not_lt.mpr hfits)]
  rfl

/-- **A header reads back**, whatever follows it. -/
theorem parseHeader_append (hs : h.Short) (hformat : h.format = formatV1)
    (rest : Bytes) : parseHeader (h.bytes ++ rest) = .ok (h, h.bytes.length) := by
  obtain ⟨format, kind, alg, keyID, v, nonce⟩ := h
  obtain rfl : format = formatV1 := hformat
  -- the record, cut at the positions at which the reader stands
  set start : Bytes := [formatV1, kind, alg]
  have hbytes : (Header.bytes ⟨formatV1, kind, alg, keyID, v, nonce⟩)
      = start ++ (lp.field keyID ++ (be32 v ++ lp.field nonce)) := rfl
  have hkey : readLP (start ++ (lp.field keyID ++ (be32 v ++ (lp.field nonce ++ rest)))) 3
      = .ok (keyID, (start ++ lp.field keyID).length) := readLP_field hs.1
  have hnonce : readLP ((start ++ lp.field keyID ++ be32 v) ++ (lp.field nonce ++ rest))
      (start ++ lp.field keyID ++ be32 v).length
        = .ok (nonce, (start ++ lp.field keyID ++ be32 v ++ lp.field nonce).length) :=
    readLP_field hs.2
  have hversion : uint32 (((start ++ lp.field keyID) ++ (be32 v ++ (lp.field nonce ++ rest))).drop
      (start ++ lp.field keyID).length) = v := by
    rw [drop_left, uint32_be32_append]
  have hpos : (start ++ lp.field keyID ++ be32 v).length
      = (start ++ lp.field keyID).length + 4 := by
    rw [length_append, length_be32]
  rw [hpos] at hnonce
  rw [hbytes]
  simp only [append_assoc] at hkey hnonce hversion ⊢
  refine (parseHeader_of_reads hkey ?_ hnonce).trans ?_
  · show _ ≤ (start ++ (lp.field keyID ++ (be32 v ++ (lp.field nonce ++ rest)))).length
    simp only [length_append, length_be32]
    omega
  · show Except.ok ((⟨_, _, _, _, uint32 (List.drop _ (start ++ _)), _⟩ : Header), _) = _
    rw [hversion]

theorem recordKeyVersion_append (hs : h.Short) (hformat : h.format = formatV1)
    (rest : Bytes) : recordKeyVersion (h.bytes ++ rest) = .ok h.keyVersion := by
  rw [recordKeyVersion, parseHeader_append hs hformat]
  rfl

/-! ## Sealing and opening -/

section

variable {A : Aead} {rnd key keyID plaintext record : Bytes} {keyVersion : UInt32} {a : AAD}

theorem sealRecord_eq_ok : sealRecord A rnd key keyID keyVersion a plaintext = .ok record ↔
      nonceSizeX ≤ rnd.length ∧ key.length = keySize ∧
      (sealHeader rnd keyID keyVersion a).Short ∧ (∀ f ∈ a.fields, f.length < lp.bound) ∧
      record = (sealHeader rnd keyID keyVersion a).bytes ++
        A.sealBytes key (rnd.take nonceSizeX) plaintext
          ((sealHeader rnd keyID keyVersion a).bytes ++ lp.fields a.fields) := by
  unfold sealRecord
  simp only [except_bind_eq_ok, ensure_eq_ok, appendHeader_eq_ok, appendAAD_eq_ok, pure,
    Except.pure, Except.ok.injEq, nil_append]
  constructor
  · rintro ⟨_, hrnd, _, hkey, _, ⟨hs, rfl⟩, _, ⟨hfields, rfl⟩, rfl⟩
    exact ⟨hrnd, hkey, hs, hfields, rfl⟩
  · rintro ⟨hrnd, hkey, hs, hfields, rfl⟩
    exact ⟨(), hrnd, (), hkey, _, ⟨hs, rfl⟩, _, ⟨hfields, rfl⟩, rfl⟩

theorem openRecord_append (hs : h.Short) (hformat : h.format = formatV1) (ct : Bytes) :
    openRecord A key keyID keyVersion a (h.bytes ++ ct) = .ok plaintext ↔
      (h.kind = a.kind ∧ h.alg = algXChaCha20Poly1305 ∧ h.keyID = keyID ∧
        h.keyVersion = keyVersion ∧ h.nonce.length = nonceSizeX) ∧
      key.length = keySize ∧ (∀ f ∈ a.fields, f.length < lp.bound) ∧
      A.openBytes key h.nonce ct (h.bytes ++ lp.fields a.fields) = some plaintext := by
  unfold openRecord
  rw [parseHeader_append hs hformat]
  simp only [except_bind_eq_ok, ensure_eq_ok, appendAAD_eq_ok, Except.ok.injEq,
    exists_eq_left', take_left, drop_left, not_or, not_not]
  have hopen : ∀ r : Option Bytes, (match r with
      | some p => Except.ok p
      | none => Except.error CryptoError.decrypt) = .ok plaintext ↔ r = some plaintext := by
    intro r
    cases r with
    | none => exact iff_of_false nofun nofun
    | some p => exact ⟨fun h => congrArg some (Except.ok.inj h),
        fun h => congrArg Except.ok (Option.some.inj h)⟩
  constructor
  · rintro ⟨_, hheader, _, hkey, _, ⟨hfields, rfl⟩, hp⟩
    exact ⟨hheader, hkey, hfields, (hopen _).mp hp⟩
  · rintro ⟨hheader, hkey, hfields, hp⟩
    exact ⟨(), hheader, (), hkey, _, ⟨hfields, rfl⟩, (hopen _).mpr hp⟩

end

/-! ## Relocation -/

/-- One call of the cipher's encryption. -/
structure SealCall where
  key : Bytes
  nonce : Bytes
  plaintext : Bytes
  aad : Bytes
deriving DecidableEq, Repr

/-- The ciphertext of a call. -/
def SealCall.output (A : Aead) (c : SealCall) : Bytes :=
  A.sealBytes c.key c.nonce c.plaintext c.aad

/-- **An ideal cipher**, with respect to the encryptions that were made. -/
structure Aead.Ideal (A : Aead) (log : Set SealCall) : Prop where
  /-- what was sealed opens -/
  opens : ∀ c ∈ log, A.openBytes c.key c.nonce (c.output A) c.aad = some c.plaintext
  /-- nothing else opens: key, nonce, ciphertext and associated data are those of a call -/
  only : ∀ key nonce ct aad p, A.openBytes key nonce ct aad = some p →
    ∃ c ∈ log, c.key = key ∧ c.nonce = nonce ∧ c.output A = ct ∧ c.aad = aad
  /-- two calls under one key and nonce do not share a ciphertext; nonces being fresh for
  each call, no two calls share a key and a nonce to begin with -/
  distinct : ∀ c ∈ log, ∀ c' ∈ log, c.key = c'.key → c.nonce = c'.nonce →
    c.output A = c'.output A → c = c'

/-- The call of the cipher a seal makes. -/
def sealCall (rnd key keyID : Bytes) (keyVersion : UInt32) (a : AAD) (plaintext : Bytes) :
    SealCall :=
  ⟨key, rnd.take nonceSizeX, plaintext,
    (sealHeader rnd keyID keyVersion a).bytes ++ lp.fields a.fields⟩

/-- **Relocation resistance.** Under an ideal cipher a sealed record opens, with
its own key, under the name, the version and the associated data it was sealed
with, and under nothing else. The bytes authenticated for a record determine its
header and its associated data, across all schemas. -/
theorem openRecord_sealed_iff {A : Aead} {log : Set SealCall} (ideal : A.Ideal log)
    {rnd key keyID plaintext record : Bytes} {keyVersion : UInt32} {a : AAD}
    (hseal : sealRecord A rnd key keyID keyVersion a plaintext = .ok record)
    (hlog : sealCall rnd key keyID keyVersion a plaintext ∈ log) : (∀ keyID' keyVersion' a',
      openRecord A key keyID' keyVersion' a' record = .ok plaintext ↔
        keyID' = keyID ∧ keyVersion' = keyVersion ∧ a' = a) ∧
    (∀ (h h' : Header) (b b' : AAD) (out : Bytes), h.kind = b.kind → h'.kind = b'.kind →
      (appendHeader [] h >>= fun header => appendAAD header b) = .ok out →
      (appendHeader [] h' >>= fun header => appendAAD header b') = .ok out →
      h = h' ∧ b = b') := by
  constructor
  · intro keyID' keyVersion' a'
    obtain ⟨hrnd, hkey, hs, hfields, rfl⟩ := sealRecord_eq_ok.mp hseal
    rw [openRecord_append hs rfl]
    constructor
    · rintro ⟨⟨hkind, -, hname, hversion, -⟩, -, hfields', hopen⟩
      refine ⟨hname.symm, hversion.symm, ?_⟩
      -- the call that is opened is the call that sealed the record
      obtain ⟨c, hc, hckey, hcnonce, hcout, hcaad⟩ := ideal.only _ _ _ _ _ hopen
      obtain rfl := ideal.distinct c hc _ hlog hckey hcnonce hcout
      have hsame : lp.fields a.fields = lp.fields a'.fields := append_cancel_left hcaad
      exact AAD.eq_of_fields hkind.symm (lp.fields_inj hfields' hfields hsame.symm)
    · rintro ⟨rfl, rfl, rfl⟩
      have hnonce : (rnd.take nonceSizeX).length = nonceSizeX := by
        rw [length_take, Nat.min_eq_left hrnd]
      exact ⟨⟨rfl, rfl, rfl, rfl, hnonce⟩, hkey, hfields, ideal.opens _ hlog⟩
  · intro h h' b b' out hkind hkind' hout hout'
    obtain ⟨_, hheader, haad⟩ := bind_ok hout
    obtain ⟨_, hheader', haad'⟩ := bind_ok hout'
    obtain ⟨hs, rfl⟩ := appendHeader_eq_ok.mp hheader
    obtain ⟨hs', rfl⟩ := appendHeader_eq_ok.mp hheader'
    obtain ⟨hfields, rfl⟩ := appendAAD_eq_ok.mp haad
    obtain ⟨hfields', heq⟩ := appendAAD_eq_ok.mp haad'
    simp only [nil_append] at heq
    obtain ⟨rfl, hsame⟩ := Header.bytes_append_inj hs hs' heq
    exact ⟨rfl, AAD.eq_of_fields (hkind.symm.trans hkind') (lp.fields_inj hfields hfields' hsame)⟩

/-- A cipher that opens the output of one call only. -/
def oneCallAead (c : SealCall) : Aead where
  sealBytes _ _ plaintext aad := plaintext ++ aad
  openBytes key nonce ct aad :=
    if key = c.key ∧ nonce = c.nonce ∧ ct = c.plaintext ++ c.aad ∧ aad = c.aad then
      some c.plaintext
    else none

theorem oneCallAead_ideal (c : SealCall) : (oneCallAead c).Ideal {c} where
  opens := by
    rintro _ rfl
    exact if_pos ⟨rfl, rfl, rfl, rfl⟩
  only := by
    intro key nonce ct aad p hopen
    have hcall : key = c.key ∧ nonce = c.nonce ∧ ct = c.plaintext ++ c.aad ∧ aad = c.aad := by
      by_contra hnot
      exact nomatch (if_neg hnot).symm.trans hopen
    obtain ⟨rfl, rfl, rfl, rfl⟩ := hcall
    exact ⟨c, rfl, rfl, rfl, rfl, rfl⟩
  distinct := by
    rintro _ rfl _ rfl - - -
    rfl

/-- A draft's field, bound to its environment as well as to its row. -/
def draftField : ProjectFieldAAD where
  orgID := [1]
  projectID := [2]
  ownerTable := [3]
  ownerRowID := [4]
  fieldTag := [5]
  environmentID := [6]
  keyID := []
  snapshotID := []

/-- The draft's field opens where it was sealed; with its environment left out,
which drops the optional tail, it does not. -/
theorem draftField_opens_in_place :
    ∃ A record, sealRecord A (List.replicate 24 0) (List.replicate 32 9) [7] 3
        (.projectField draftField) [42] = .ok record ∧
      openRecord A (List.replicate 32 9) [7] 3 (.projectField draftField) record = .ok [42] ∧
      openRecord A (List.replicate 32 9) [7] 3
        (.projectField { draftField with environmentID := [] }) record ≠ .ok [42] := by
  set c := sealCall (List.replicate 24 0) (List.replicate 32 9) [7] 3
    (.projectField draftField) [42] with hc
  have hseal : sealRecord (oneCallAead c) (List.replicate 24 0) (List.replicate 32 9) [7] 3
      (.projectField draftField) [42] = .ok ((sealHeader (List.replicate 24 0) [7] 3
        (.projectField draftField)).bytes ++ ([42] ++ c.aad)) := rfl
  have hiff := (openRecord_sealed_iff (oneCallAead_ideal c) hseal hc.symm).1
  refine ⟨oneCallAead c, _, hseal, (hiff _ _ _).mpr ⟨rfl, rfl, rfl⟩, fun hopen => ?_⟩
  exact absurd ((hiff _ _ _).mp hopen).2.2 (by decide)

end Hikyo
