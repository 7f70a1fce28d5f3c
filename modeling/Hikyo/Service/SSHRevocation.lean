import Hikyo.Service.SSHCertificates

/-!
# A revoked certificate stays untrusted

A host accepts a certificate if the trust bundle has the public key that signed it and
the revocation list does not name its serial under that key. So whatever is revoked, has
not expired and is signed by a key of the bundle has to be on the list.

The bundle is made of key *rows* and the list of certificates joined with their key row.
The two agree about a public key as long as one row holds it. They need not agree when two
rows do, which is what importing a key again does: the row that signed is retired, its
certificates leave the list, and the new row puts the public key back into the bundle.
In a history that never brings back a public key that the authority has had
(`BringsNewKey`), the list is complete in every state, at every time. That the list names
only what is revoked needs no condition.

`Refs` keeps which rows there are and which row signed what; every transaction is one of four moves
on it (`refs_apply`).
-/

namespace Hikyo.SSH

open List
open Tx (ensure bind_ok skip except_bind_eq_ok checked)
open SSHTables (KeyMaterial)

variable {κ : Type}

/-! ## Histories -/

/-- A call of the service, or a step of the sweep. -/
inductive Op (κ : Type) where
  | createCA (admission : Admission) (id name : String) (material : KeyMaterial κ) (now : ℤ)
  | rotateCA (admission : Admission) (caID : String) (material : KeyMaterial κ)
      (overlap : Option ℤ) (now : ℤ)
  | retireCAKey (admission : Admission) (caID keyID : String)
  | deleteCA (admission : Admission) (caID : String)
  | createProfile (admission : Admission) (id : String) (req : ProfileRequest)
  | updateProfile (admission : Admission) (id : String) (req : ProfileRequest) (now : ℤ)
  | deleteProfile (admission : Admission) (id : String) (revokeIssued : Bool) (now : ℤ)
  | issue (admission : Admission) (ceremony : Except ServiceError Unit) (id : String)
      (serial : Serial) (req : IssueRequest) (now : ℤ)
  | revokeCertificate (admission : Admission) (id : String)
  | sweepOne (c : SweepCandidate) (refused : Except ServiceError Bool)

variable (validPrincipal : String → Bool)

def apply (s : SSHTables κ) : Op κ → Except ServiceError (SSHTables κ)
  | .createCA admission id name material now => createCA s admission id name material now
  | .rotateCA admission caID material overlap now => rotateCA s admission caID material overlap now
  | .retireCAKey admission caID keyID => retireCAKey s admission caID keyID
  | .deleteCA admission caID => deleteCA s admission caID
  | .createProfile admission id req => createProfile s validPrincipal admission id req
  | .updateProfile admission id req now => updateProfile s validPrincipal admission id req now
  | .deleteProfile admission id revokeIssued now => deleteProfile s admission id revokeIssued now
  | .issue admission ceremony id serial req now => issue s admission ceremony id serial req now
  | .revokeCertificate admission id => revokeCertificate s admission id
  | .sweepOne c refused => sweepOne s c refused

/-- One transaction: it commits or changes nothing. -/
def step (s : SSHTables κ) (op : Op κ) : SSHTables κ :=
  Tx.commit (fun s => apply validPrincipal s op) s

/-! ## Which rows there are -/

/-- The columns of a key that never change. -/
structure KeyRef (κ : Type) where
  id : String
  caID : String
  publicKey : κ
deriving DecidableEq, Repr

/-- Which key signed a certificate. -/
structure CertificateRef where
  caID : String
  caKeyID : String
deriving DecidableEq, Repr

/-- **The rows and what they refer to**, without what changes in them. -/
structure Refs (κ : Type) where
  cas : List String
  keys : List (KeyRef κ)
  certificates : List CertificateRef

def CAKey.ref (k : CAKey κ) : KeyRef κ := ⟨k.id, k.caID, k.publicKey⟩

def Certificate.ref (c : Certificate) : CertificateRef := ⟨c.caID, c.caKeyID⟩

def SSHTables.refs (s : SSHTables κ) : Refs κ :=
  ⟨s.cas.rows.map CA.id, s.keys.rows.map CAKey.ref, s.certificates.rows.map Certificate.ref⟩

/-- **What a transaction does to the rows.** -/
inductive Refs.Step : Op κ → Refs κ → Refs κ → Prop
  | same (op : Op κ) (r : Refs κ) : Step op r r
  | createCA {admission : Admission} {id name : String} {material : KeyMaterial κ} {now : ℤ}
      {r : Refs κ} (hid : id ∉ r.cas) :
      Step (.createCA admission id name material now) r
        { r with
          cas := id :: r.cas
          keys := ⟨material.id, id, material.publicKey⟩ :: r.keys }
  | rotateCA {admission : Admission} {caID : String} {material : KeyMaterial κ}
      {overlap : Option ℤ} {now : ℤ} {r : Refs κ} (hca : caID ∈ r.cas) :
      Step (.rotateCA admission caID material overlap now) r
        { r with keys := ⟨material.id, caID, material.publicKey⟩ :: r.keys }
  | issue {op : Op κ} {r : Refs κ} {k : KeyRef κ} (hk : k ∈ r.keys) :
      Step op r { r with certificates := ⟨k.caID, k.id⟩ :: r.certificates }

/-! ### The statements -/

variable {ca : CA} {c : Certificate}

section Statements

variable {s s' : SSHTables κ}

variable {caID : String}

theorem getCA_eq_ok (h : s.getCA caID = .ok ca) :
    ca ∈ s.cas.rows ∧ ca.id = caID ∧ ca.state = .active := by
  unfold SSHTables.getCA at h
  cases hfind : s.cas.rows.find? fun ca => ca.id = caID ∧ ca.state = .active with
  | none =>
    rw [hfind] at h
    cases h
  | some ca' =>
    rw [hfind] at h
    cases h
    have hfound := find?_some hfind
    exact ⟨mem_of_find?_eq_some hfind, of_decide_eq_true hfound⟩

theorem refs_updateKeys (p : CAKey κ → Bool) (state : KeyState) (retireAfter : Option ℤ) :
    (s.updateKeys p state retireAfter).refs = s.refs := by
  show Refs.mk _ ((Table.update p _ s.keys.rows).map CAKey.ref) _ = _
  rw [Table.map_update]
  · rfl
  · exact fun _ => rfl

theorem refs_revokeWhere (p : Certificate → Bool) (reason : RevocationReason) :
    (s.revokeWhere p reason).refs = s.refs := by
  show Refs.mk _ _ ((Table.update _ _ s.certificates.rows).map Certificate.ref) = _
  rw [Table.map_update]
  · rfl
  · exact fun _ => rfl

theorem refs_deleteCA (caID : String) : (s.deleteCA caID).refs = s.refs := by
  unfold SSHTables.deleteCA
  rw [refs_updateKeys]
  show Refs.mk ((Table.update _ _ s.cas.rows).map CA.id) _ _ = _
  rw [Table.map_update]
  · rfl
  · exact fun _ => rfl

theorem refs_createCA {id name authority : String} (h : s.createCA id name authority = .ok s') :
    id ∉ s.refs.cas ∧ s'.refs = { s.refs with cas := id :: s.refs.cas } := by
  unfold SSHTables.createCA at h
  replace h := skip h
  split at h
  next => cases h
  next cas hinsert =>
    cases h
    obtain ⟨hrows, hnew⟩ := Table.Keyed.insert_eq_some hinsert
    refine ⟨fun hmem => ?_, ?_⟩
    · obtain ⟨ca, hca, hid⟩ := mem_map.mp hmem
      exact hnew ca hca hid
    · show Refs.mk (cas.rows.map CA.id) _ _ = _
      rw [hrows]
      rfl

theorem refs_insertCAKey {material : KeyMaterial κ} {now : ℤ}
    (h : s.insertCAKey caID material now = .ok s') : caID ∈ s.refs.cas ∧
      s'.refs = { s.refs with keys := ⟨material.id, caID, material.publicKey⟩ :: s.refs.keys } := by
  unfold SSHTables.insertCAKey at h
  obtain ⟨ca, hca, h⟩ := bind_ok h
  obtain ⟨hmem, hid, -⟩ := getCA_eq_ok hca
  replace h := skip h
  split at h
  next => cases h
  next keys hinsert =>
    cases h
    refine ⟨mem_map.mpr ⟨ca, hmem, hid⟩, ?_⟩
    show Refs.mk _ (keys.rows.map CAKey.ref) _ = _
    rw [(Table.Keyed.insert_eq_some hinsert).1, hid]
    rfl

theorem refs_retireActiveCAKey {retireAfter : ℤ}
    (h : s.retireActiveCAKey caID retireAfter = .ok s') : s'.refs = s.refs := by
  unfold SSHTables.retireActiveCAKey at h
  split at h
  next => cases h
  next key _ =>
    cases h
    exact refs_updateKeys _ _ _

theorem refs_insertCertificate (h : s.insertCertificate c = .ok s') :
    ∃ k ∈ s.refs.keys, s'.refs =
      { s.refs with certificates := ⟨k.caID, k.id⟩ :: s.refs.certificates } := by
  unfold SSHTables.insertCertificate at h
  obtain ⟨hkey, h⟩ := checked h
  replace h := skip (skip h)
  obtain ⟨k, hk, hid, hca, -⟩ := hkey
  split at h
  next => cases h
  next certificates hinsert =>
    cases h
    refine ⟨k.ref, mem_map_of_mem hk, ?_⟩
    show Refs.mk _ _ (certificates.rows.map Certificate.ref) = _
    rw [(Table.Keyed.insert_eq_some hinsert).1, map_cons]
    show Refs.mk _ _ (⟨c.caID, c.caKeyID⟩ :: _) = Refs.mk _ _ (⟨k.caID, k.id⟩ :: _)
    rw [hid, hca]
    rfl

end Statements

/-! ### The services -/

variable {op : Op κ}

section Services

variable {validPrincipal} {s s' : SSHTables κ}

/-- **Every transaction is one of the four moves.** -/
theorem refs_apply (h : apply validPrincipal s op = .ok s') : Refs.Step op s.refs s'.refs := by
  cases op with
  | createCA admission id name material now =>
    replace h := skip h
    obtain ⟨caller, -, h⟩ := bind_ok h
    obtain ⟨s₁, hca, h⟩ := bind_ok h
    obtain ⟨hid, hrefs₁⟩ := refs_createCA hca
    obtain ⟨-, hrefs⟩ := refs_insertCAKey h
    rw [hrefs, hrefs₁]
    exact .createCA hid
  | rotateCA admission caID material overlap now =>
    replace h := skip (skip (skip h))
    obtain ⟨s₁, hretire, h⟩ := bind_ok h
    obtain ⟨hca, hrefs⟩ := refs_insertCAKey h
    rw [refs_retireActiveCAKey hretire] at hca hrefs
    rw [hrefs]
    exact .rotateCA hca
  | retireCAKey admission caID keyID =>
    replace h := skip (skip (skip (skip h)))
    cases h
    rw [refs_updateKeys]
    exact .same _ _
  | deleteCA admission caID =>
    replace h := skip h
    obtain ⟨ca, -, h⟩ := bind_ok h
    replace h := skip h
    cases h
    rw [refs_deleteCA]
    exact .same _ _
  | createProfile admission id req =>
    obtain ⟨req, -, h⟩ := bind_ok h
    replace h := skip h
    obtain ⟨ca, -, h⟩ := bind_ok h
    replace h := skip h
    split at h
    next => cases h
    next profiles _ =>
      cases h
      exact .same _ _
  | updateProfile admission id req now =>
    obtain ⟨req, -, h⟩ := bind_ok h
    replace h := skip h
    obtain ⟨current, -, h⟩ := bind_ok h
    replace h := skip (skip (skip h))
    cases h
    show Refs.Step _ _ (SSHTables.refs (SSHTables.revokeWhere _ _ _))
    rw [refs_revokeWhere]
    exact .same _ _
  | deleteProfile admission id revokeIssued now =>
    replace h := skip h
    obtain ⟨p, -, h⟩ := bind_ok h
    cases h
    show Refs.Step _ _ (SSHTables.refs (if revokeIssued then _ else s))
    cases revokeIssued with
    | false => exact .same _ _
    | true =>
      show Refs.Step _ _ (SSHTables.refs (SSHTables.revokeWhere _ _ _))
      rw [refs_revokeWhere]
      exact .same _ _
  | issue admission ceremony id serial req now =>
    replace h := skip h
    obtain ⟨caller, -, h⟩ := bind_ok h
    replace h := skip h
    obtain ⟨profile, -, h⟩ := bind_ok h
    replace h := skip (skip (skip h))
    obtain ⟨resolved, -, h⟩ := bind_ok h
    obtain ⟨key, -, h⟩ := bind_ok h
    obtain ⟨k, hk, hrefs⟩ := refs_insertCertificate h
    rw [hrefs]
    exact .issue hk
  | revokeCertificate admission id =>
    obtain ⟨caller, -, h⟩ := bind_ok h
    obtain ⟨c, -, h⟩ := bind_ok h
    replace h := skip h
    cases h
    rw [refs_revokeWhere]
    exact .same _ _
  | sweepOne c refused =>
    obtain ⟨b, -, h⟩ := bind_ok h
    cases h
    cases b with
    | false => exact .same _ _
    | true =>
      show Refs.Step _ _ (SSHTables.refs (SSHTables.revokeWhere _ _ _))
      rw [refs_revokeWhere]
      exact .same _ _

end Services

/-! ## One row for a public key -/

/-- A rotation brings a public key that no row of the authority has. -/
def BringsNewKey (s : SSHTables κ) : Op κ → Prop
  | .rotateCA _ caID material _ _ =>
    ∀ k ∈ s.keys.rows, k.caID = caID → k.publicKey ≠ material.publicKey
  | _ => True

/-- **The rows refer to one another, and a public key has one row** in an authority. -/
structure Refs.Sound (r : Refs κ) : Prop where
  keys : ∀ k ∈ r.keys, k.caID ∈ r.cas
  certificates : ∀ c ∈ r.certificates, ∃ k ∈ r.keys, k.id = c.caKeyID ∧ k.caID = c.caID
  oneRow : ∀ k ∈ r.keys, ∀ k' ∈ r.keys, k.caID = k'.caID → k.publicKey = k'.publicKey → k = k'

namespace Refs.Sound

variable {r r' : Refs κ}

theorem initial : (SSHTables.initial : SSHTables κ).refs.Sound :=
  ⟨fun _ h => (nomatch h), fun _ h => (nomatch h), fun _ h => (nomatch h)⟩

/-- A key whose public key is new to its authority. -/
theorem addKey (h : r.Sound) {k : KeyRef κ} {cas : List String} (hcas : ∀ id ∈ r.cas, id ∈ cas)
    (hca : k.caID ∈ cas) (hnew : ∀ k' ∈ r.keys, k'.caID = k.caID → k'.publicKey ≠ k.publicKey) :
    ({ r with cas, keys := k :: r.keys } : Refs κ).Sound where
  keys k' hk' := by
    rcases mem_cons.mp hk' with rfl | hk'
    · exact hca
    · exact hcas _ (h.keys k' hk')
  certificates c hc := by
    obtain ⟨k', hk', hid, hcaID⟩ := h.certificates c hc
    exact ⟨k', mem_cons_of_mem _ hk', hid, hcaID⟩
  oneRow k₁ h₁ k₂ h₂ hcaID hkey := by
    rcases mem_cons.mp h₁ with heq₁ | hold₁
    · rcases mem_cons.mp h₂ with heq₂ | hold₂
      · exact heq₁.trans heq₂.symm
      · exact absurd (heq₁ ▸ hkey).symm (hnew k₂ hold₂ (heq₁ ▸ hcaID).symm)
    · rcases mem_cons.mp h₂ with heq₂ | hold₂
      · exact absurd (heq₂ ▸ hkey) (hnew k₁ hold₁ (heq₂ ▸ hcaID))
      · exact h.oneRow k₁ hold₁ k₂ hold₂ hcaID hkey

theorem step (h : r.Sound) (hstep : Refs.Step op r r')
    (hnew : ∀ admission caID material overlap now, op = .rotateCA admission caID material overlap now →
      ∀ k ∈ r.keys, k.caID = caID → k.publicKey ≠ material.publicKey) : r'.Sound := by
  cases hstep with
  | same => exact h
  | @createCA _ id _ _ _ _ hid =>
    -- no key can refer to an authority that was not there
    refine h.addKey (fun id hid => mem_cons_of_mem _ hid) mem_cons_self fun k hk hca => ?_
    have hca : k.caID = id := hca
    exact absurd (hca ▸ h.keys k hk) hid
  | rotateCA hca => exact h.addKey (fun _ hid => hid) hca (hnew _ _ _ _ _ rfl)
  | @issue _ _ k hk =>
    refine ⟨h.keys, fun c hc => ?_, h.oneRow⟩
    rcases mem_cons.mp hc with rfl | hc
    · exact ⟨k, hk, rfl, rfl⟩
    · exact h.certificates c hc

end Refs.Sound

/-- **In a history that brings no key back, a public key has one row.** -/
theorem refs_sound (ops : List (Op κ))
    (hnew : Tx.Along (step validPrincipal) BringsNewKey SSHTables.initial ops) :
    (Tx.exec (step validPrincipal) SSHTables.initial ops).refs.Sound := by
  refine Tx.exec_invariant_along BringsNewKey (fun s : SSHTables κ => s.refs.Sound) ?_ ops _ hnew .initial
  intro s op hnew hs
  refine Tx.commit_invariant (fun s : SSHTables κ => s.refs.Sound) hs fun s' h => ?_
  refine hs.step (refs_apply h) fun admission caID material overlap now hop k hk hca => ?_
  subst hop
  obtain ⟨row, hrow, rfl⟩ := mem_map.mp hk
  exact hnew row hrow hca

/-! ## What the revocation list holds -/

section List

variable (w : KeyCodec κ)

/-- The sections hold exactly the rows that were read, each under its key. -/
structure Collected (seen : List RevokedSerial) (sections : List (String × KRLSection κ)) :
    Prop where
  complete : ∀ r ∈ seen, ∃ sec ∈ sections, sec.1 = r.caKeyPublicKey ∧ r.serial ∈ sec.2.serials
  read : ∀ sec ∈ sections, w.parsePublicKey sec.1 = some sec.2.caKey
  sound : ∀ sec ∈ sections, ∀ n ∈ sec.2.serials, ∃ r ∈ seen, r.caKeyPublicKey = sec.1 ∧ r.serial = n

variable {w}

theorem Collected.nil : Collected w [] [] :=
  ⟨fun _ h => (nomatch h), fun _ h => (nomatch h), fun _ h => (nomatch h)⟩

variable {r : RevokedSerial}

theorem Collected.addSerial {seen : List RevokedSerial} {sections sections' :
    List (String × KRLSection κ)} (h : Collected w seen sections)
    (hadd : addSerial w sections r = .ok sections') : Collected w (seen ++ [r]) sections' := by
  have hseen : ∀ r' ∈ seen, r' ∈ seen ++ [r] := fun r' hr' => mem_append_left _ hr'
  have hlast : r ∈ seen ++ [r] := mem_append_right _ (mem_singleton_self r)
  unfold SSH.addSerial at hadd
  split at hadd
  case isTrue hany =>
    cases hadd
    obtain ⟨sec₀, hsec₀, heq₀⟩ := any_eq_true.mp hany
    refine ⟨fun r' hr' => ?_, fun sec hsec => ?_, fun sec hsec n hn => ?_⟩
    · rcases mem_append.mp hr' with hr' | hr'
      · obtain ⟨sec, hsec, htext, hserial⟩ := h.complete r' hr'
        refine ⟨_, mem_map_of_mem hsec, ?_⟩
        split
        · exact ⟨htext, mem_append_left _ hserial⟩
        · exact ⟨htext, hserial⟩
      · obtain rfl := mem_singleton.mp hr'
        refine ⟨_, mem_map_of_mem hsec₀, ?_⟩
        rw [if_pos (of_decide_eq_true heq₀)]
        exact ⟨of_decide_eq_true heq₀, mem_append_right _ (mem_singleton_self _)⟩
    · obtain ⟨sec₁, hsec₁, rfl⟩ := mem_map.mp hsec
      split
      · exact h.read sec₁ hsec₁
      · exact h.read sec₁ hsec₁
    · obtain ⟨sec₁, hsec₁, rfl⟩ := mem_map.mp hsec
      split at hn
      case isTrue htext =>
        rw [if_pos htext]
        rcases mem_append.mp hn with hn | hn
        · obtain ⟨r', hr', hkey, hserial⟩ := h.sound sec₁ hsec₁ n hn
          exact ⟨r', hseen r' hr', hkey, hserial⟩
        · exact ⟨r, hlast, htext.symm, (mem_singleton.mp hn).symm⟩
      case isFalse htext =>
        rw [if_neg htext]
        obtain ⟨r', hr', hkey, hserial⟩ := h.sound sec₁ hsec₁ n hn
        exact ⟨r', hseen r' hr', hkey, hserial⟩
  case isFalse =>
    split at hadd
    next => cases hadd
    next key hkey =>
      cases hadd
      refine ⟨fun r' hr' => ?_, fun sec hsec => ?_, fun sec hsec n hn => ?_⟩
      · rcases mem_append.mp hr' with hr' | hr'
        · obtain ⟨sec, hsec, hboth⟩ := h.complete r' hr'
          exact ⟨sec, mem_append_left _ hsec, hboth⟩
        · obtain rfl := mem_singleton.mp hr'
          exact ⟨_, mem_append_right _ (mem_singleton_self _), rfl, mem_singleton_self _⟩
      · rcases mem_append.mp hsec with hsec | hsec
        · exact h.read sec hsec
        · obtain rfl := mem_singleton.mp hsec
          exact hkey
      · rcases mem_append.mp hsec with hsec | hsec
        · obtain ⟨r', hr', hboth⟩ := h.sound sec hsec n hn
          exact ⟨r', hseen r' hr', hboth⟩
        · obtain rfl := mem_singleton.mp hsec
          exact ⟨r, hlast, rfl, (mem_singleton.mp hn).symm⟩

theorem Collected.foldlM : ∀ (rows : List RevokedSerial) {seen : List RevokedSerial}
    {sections sections' : List (String × KRLSection κ)}, Collected w seen sections →
      rows.foldlM (SSH.addSerial w) sections = .ok sections' → Collected w (seen ++ rows) sections'
  | [], seen, _, _, h, hfold => by
    rw [append_nil]
    exact Except.ok.inj hfold ▸ h
  | r :: rows, seen, _, _, h, hfold => by
    rw [foldlM_cons, except_bind_eq_ok] at hfold
    obtain ⟨sections₁, hadd, hfold⟩ := hfold
    rw [show seen ++ r :: rows = seen ++ [r] ++ rows by rw [append_assoc]; rfl]
    exact Collected.foldlM rows (h.addSerial hadd) hfold

/-- The loop fails only on a key that cannot be read. -/
theorem foldlM_addSerial_isOk {rows : List RevokedSerial}
    (hread : ∀ r ∈ rows, ∃ key, w.parsePublicKey r.caKeyPublicKey = some key) :
    ∃ sections, rows.foldlM (addSerial w) [] = .ok sections := by
  cases hfold : rows.foldlM (addSerial w) [] with
  | ok sections => exact ⟨sections, rfl⟩
  | error e =>
    obtain ⟨sections, -, r, hr, hadd⟩ :=
      Tx.foldlM_eq_error (fun _ => True) rows (fun _ _ _ _ _ _ => trivial) trivial hfold
    obtain ⟨key, hkey⟩ := hread r hr
    unfold addSerial at hadd
    split at hadd
    · cases hadd
    · rw [hkey] at hadd
      cases hadd

variable {n : ℕ}

theorem mem_writtenSerials {serials : List ℕ} :
    n ∈ writtenSerials serials ↔ n ∈ serials ∧ n ≠ 0 := by
  rw [writtenSerials, mem_dedup, mem_insertionSort, mem_filter]
  exact and_congr_right fun _ => decide_eq_true_iff

variable {list : KRL κ}

/-- The encoder drops nothing but zero. -/
theorem lists_encodeKRL {list' : KRL κ} (h : encodeKRL list = .ok list') (key : κ) (n : ℕ) :
    list'.Lists key n ↔ list.Lists key n ∧ n ≠ 0 := by
  unfold encodeKRL at h
  replace h := skip h
  cases h
  constructor
  · rintro ⟨sec', hsec', rfl, hn⟩
    obtain ⟨sec, hsec, rfl⟩ := mem_map.mp (mem_filter.mp hsec').1
    obtain ⟨hn, hzero⟩ := mem_writtenSerials.mp hn
    exact ⟨⟨sec, hsec, rfl, hn⟩, hzero⟩
  · rintro ⟨⟨sec, hsec, rfl, hn⟩, hzero⟩
    have hwritten : n ∈ writtenSerials sec.serials := mem_writtenSerials.mpr ⟨hn, hzero⟩
    refine ⟨{ sec with serials := writtenSerials sec.serials }, mem_filter.mpr
      ⟨mem_map_of_mem hsec, ?_⟩, rfl, hwritten⟩
    exact decide_eq_true (ne_nil_of_mem hwritten)

theorem encodeKRL_cases (list : KRL κ) :
    encodeKRL list = .error krlTooLarge ∨ ∃ list', encodeKRL list = .ok list' := by
  unfold encodeKRL
  dsimp only
  by_cases hsum : ((((list.sections.map fun sec =>
      { sec with serials := writtenSerials sec.serials }).filter fun sec => sec.serials ≠ []).map
        fun sec => sec.serials.length).sum ≤ maxKRLSerials)
  · rw [Tx.ensure_of hsum]
    exact .inr ⟨_, rfl⟩
  · rw [Tx.ensure_of_not hsum]
    exact .inl rfl

variable {s : SSHTables κ} {caID : String} {now : ℤ}

theorem revokedSerial_eq_some (h : revokedSerial w s caID now c = some r) :
    c.caID = caID ∧ c.state = .revoked ∧ r.serial = c.serial.value ∧
      ∃ k ∈ s.keys.rows, k.id = c.caKeyID ∧ r.caKeyPublicKey = w.authorizedKey k.publicKey := by
  unfold revokedSerial at h
  split at h
  case isFalse => cases h
  case isTrue hc =>
    obtain ⟨k, hfind, rfl⟩ := Option.map_eq_some_iff.mp h
    have hfound := find?_some hfind
    exact ⟨hc.1, hc.2.1, rfl, k, mem_of_find?_eq_some hfind, (of_decide_eq_true hfound).1, rfl⟩

/-- The list of a live authority: the query, the two bounds, and the sections. -/
theorem krl_eq (hca : s.getCA caID = .ok ca) : krl w s caID now =
      ensure ((revokedSerials w s caID (canonTime now) (maxKRLSerials + 1)).length ≤ maxKRLSerials)
          krlTooLarge >>= fun _ =>
        (revokedSerials w s caID (canonTime now) (maxKRLSerials + 1)).foldlM (addSerial w) [] >>=
          fun sections =>
            encodeKRL ⟨unix now, now, "hikyo ssh-ca " ++ ca.id, sections.map Prod.snd⟩ := by
  unfold krl
  rw [hca]
  rfl

variable {key : κ}

/-- **What the list names was revoked**: under the key of a certificate of the authority
that is revoked, with its serial. -/
theorem revoked_of_lists (h : krl w s caID now = .ok list) (hlists : list.Lists key n) :
    ∃ c ∈ s.certificates.rows, c.caID = caID ∧ c.serial.value = n ∧ c.state = .revoked := by
  unfold krl at h
  obtain ⟨ca, -, h⟩ := bind_ok h
  replace h := skip h
  obtain ⟨sections, hsections, h⟩ := bind_ok h
  obtain ⟨⟨sec', hsec', -, hn⟩, -⟩ := (lists_encodeKRL h key n).mp hlists
  obtain ⟨sec, hsec, rfl⟩ := mem_map.mp hsec'
  obtain ⟨r, hr, -, rfl⟩ := (Collected.nil.foldlM _ hsections).sound sec hsec n hn
  have hr := Table.mem_orderBy.mp (mem_of_mem_take hr)
  obtain ⟨c, hc, hrow⟩ := mem_filterMap.mp hr
  obtain ⟨hca, hstate, hserial, -⟩ := revokedSerial_eq_some hrow
  exact ⟨c, hc, hca, hserial.symm, hstate⟩

variable {k : CAKey κ}

/-- **What the query finds is on the list**, unless the list is refused. -/
theorem lists_of_revokedSerial (hca : s.getCA caID = .ok ca) (hc : c ∈ s.certificates.rows)
    (hrow : revokedSerial w s caID (canonTime now) c = some r)
    (hkey : r.caKeyPublicKey = w.authorizedKey k.publicKey) (hserial : r.serial ≠ 0) :
    krl w s caID now = .error krlTooLarge ∨
      ∃ list, krl w s caID now = .ok list ∧ list.Lists k.publicKey r.serial := by
  rw [krl_eq hca]
  by_cases hlength :
      (revokedSerials w s caID (canonTime now) (maxKRLSerials + 1)).length ≤ maxKRLSerials
  case neg =>
    rw [Tx.ensure_of_not hlength]
    exact .inl rfl
  case pos =>
    rw [Tx.ensure_of hlength]
    -- the limit of the query is one more than the bound, so nothing was cut off
    have hall : revokedSerials w s caID (canonTime now) (maxKRLSerials + 1) =
        Table.orderBy (fun r => toLex (r.keyID, r.serial))
          (s.certificates.rows.filterMap (revokedSerial w s caID (canonTime now))) := by
      refine take_of_length_le ?_
      rw [revokedSerials, length_take] at hlength
      omega
    have hmem : r ∈ revokedSerials w s caID (canonTime now) (maxKRLSerials + 1) := by
      rw [hall]
      exact Table.mem_orderBy.mpr (mem_filterMap.mpr ⟨c, hc, hrow⟩)
    have hread : ∀ r' ∈ revokedSerials w s caID (canonTime now) (maxKRLSerials + 1),
        ∃ key, w.parsePublicKey r'.caKeyPublicKey = some key := by
      intro r' hr'
      rw [hall] at hr'
      obtain ⟨c', -, hrow'⟩ := mem_filterMap.mp (Table.mem_orderBy.mp hr')
      obtain ⟨-, -, -, k', -, -, htext⟩ := revokedSerial_eq_some hrow'
      exact ⟨k'.publicKey, htext ▸ w.parse_authorizedKey _⟩
    obtain ⟨sections, hsections⟩ := foldlM_addSerial_isOk hread
    rw [hsections]
    have hcollected := Collected.nil.foldlM _ hsections
    obtain ⟨sec, hsec, htext, hn⟩ := hcollected.complete r hmem
    have hcaKey : sec.2.caKey = k.publicKey := by
      have hread := hcollected.read sec hsec
      rw [htext, hkey, w.parse_authorizedKey] at hread
      exact (Option.some.inj hread).symm
    refine (encodeKRL_cases _).imp id ?_
    rintro ⟨list, hlist⟩
    refine ⟨list, hlist, (lists_encodeKRL hlist _ _).mpr ⟨⟨sec.2, ?_, hcaKey, hn⟩, hserial⟩⟩
    exact mem_map_of_mem hsec

/-! ## What the trust bundle holds -/

/-- A key of the bundle is the public key of a row of the authority that is trusted. -/
theorem trusted_of_mem_bundle {bundle : List TrustedLine}
    (h : trustedKeys w s caID now = .ok bundle) {line : TrustedLine} (hline : line ∈ bundle)
    (hkey : w.parsePublicKey line.publicKey = some key) : ∃ ca, s.getCA caID = .ok ca ∧
      ∃ k ∈ s.keys.rows, k.caID = caID ∧ k.publicKey = key ∧ keyTrusted k now = true := by
  unfold trustedKeys at h
  obtain ⟨ca, hca, h⟩ := bind_ok h
  cases h
  obtain ⟨k, hk, rfl⟩ := mem_map.mp hline
  obtain ⟨hk, htrusted⟩ := mem_filter.mp hk
  obtain ⟨hk, hcaID⟩ := mem_filter.mp hk
  have hk : k ∈ s.keys.rows := Table.mem_orderBy.mp (mem_reverse.mp hk)
  rw [w.parse_authorizedKey] at hkey
  exact ⟨ca, hca, k, hk, (of_decide_eq_true hcaID).trans (getCA_eq_ok hca).2.1,
    Option.some.inj hkey, (Bool.and_eq_true_iff.mp htrusted).2⟩

/-- A key that is trusted now was trusted before, and the time of the store is not later
than the clock. -/
theorem keyTrusted_mono {t t' : ℤ} (h : t' ≤ t) (ht : keyTrusted k t = true) :
    keyTrusted k t' = true := by
  unfold keyTrusted at ht ⊢
  split at ht
  next => rfl
  next =>
    split at ht
    next r hr => exact decide_eq_true (lt_of_le_of_lt h (of_decide_eq_true ht))
    next => cases ht
  next => cases ht

end List

/-! ## The guarantee -/

/-- **The documents of an authority agree about what is revoked**: at the time `t`, a
certificate of the authority that is revoked and has not expired is on the list if the
bundle has the key that signed it, or the list is refused; and no certificate of the
authority that is on the list is not revoked. -/
def RevocationHolds (w : KeyCodec κ) (s : SSHTables κ) (caID : String) (t : ℤ) : Prop :=
  (∀ c ∈ s.certificates.rows, c.caID = caID → c.state = .revoked → t < c.validBefore →
    ∀ k ∈ s.keys.rows, k.id = c.caKeyID → ∀ bundle, trustedKeys w s caID t = .ok bundle →
      (∃ line ∈ bundle, w.parsePublicKey line.publicKey = some k.publicKey) →
        krl w s caID t = .error krlTooLarge ∨
          ∃ list, krl w s caID t = .ok list ∧ list.Lists k.publicKey c.serial.value) ∧
  (∀ list, krl w s caID t = .ok list → ∀ c ∈ s.certificates.rows, c.caID = caID →
    ∀ k ∈ s.keys.rows, k.id = c.caKeyID → list.Lists k.publicKey c.serial.value →
      c.state = .revoked)

/-- **A revoked certificate is never trusted again**, in every history in which no rotation
brings back a public key that a row of the authority has. -/
theorem revoked_never_trusted_again (w : KeyCodec κ) (ops : List (Op κ))
    (hnew : Tx.Along (step validPrincipal) BringsNewKey SSHTables.initial ops) (caID : String)
    (t : ℤ) : RevocationHolds w (Tx.exec (step validPrincipal) SSHTables.initial ops) caID t := by
  have hsound := refs_sound validPrincipal ops hnew
  revert hsound
  generalize Tx.exec (step validPrincipal) SSHTables.initial ops = s
  intro hsound
  refine ⟨fun c hc hca hrevoked hexpires k hk hkid bundle hbundle hline => ?_,
    fun list hlist c hc hca k hk hkid hlists => ?_⟩
  · obtain ⟨line, hline, hkey⟩ := hline
    obtain ⟨ca, hgetCA, k', hk', hca', hkey', htrusted⟩ := trusted_of_mem_bundle hbundle hline hkey
    -- the row that signed belongs to the authority, so it is the row of the bundle
    obtain ⟨ref, href, hrefid, hrefca⟩ := hsound.certificates c.ref (mem_map_of_mem hc)
    obtain ⟨row, hrow, rfl⟩ := mem_map.mp href
    obtain rfl : row = k := s.keys.eq_of_key hrow hk (hrefid.trans hkid.symm)
    have hrowca : row.caID = caID := hrefca.trans hca
    have href' : row.ref = k'.ref := hsound.oneRow _ (mem_map_of_mem hrow) _
      (mem_map_of_mem hk') (hrowca.trans hca'.symm) hkey'.symm
    obtain rfl : row = k' := s.keys.eq_of_key hrow hk' (congrArg KeyRef.id href')
    have hclock := canonTime_le t
    have hstored : keyTrusted row (canonTime t) = true := keyTrusted_mono hclock htrusted
    have hfind : s.keys.rows.find? (fun k => k.id = c.caKeyID ∧ keyTrusted k (canonTime t) = true) =
        some row := by
      cases hfind : s.keys.rows.find?
          (fun k => k.id = c.caKeyID ∧ keyTrusted k (canonTime t) = true) with
      | none =>
        have hnone := find?_eq_none.mp hfind row hrow
        exact absurd (decide_eq_true (And.intro hkid hstored)) hnone
      | some k'' =>
        have hfound := find?_some hfind
        have hid : k''.id = c.caKeyID := (of_decide_eq_true hfound).1
        rw [s.keys.eq_of_key (mem_of_find?_eq_some hfind) hrow (hid.trans hkid.symm)]
    have hquery : revokedSerial w s caID (canonTime t) c =
        some ⟨row.id, w.authorizedKey row.publicKey, c.serial.value⟩ := by
      unfold revokedSerial
      rw [if_pos ⟨hca, hrevoked, lt_of_le_of_lt hclock hexpires⟩, hfind]
      rfl
    exact lists_of_revokedSerial hgetCA hc hquery rfl c.serial.pos.ne'
  · obtain ⟨c', hc', hca', hserial, hrevoked⟩ := revoked_of_lists hlist hlists
    have hsame : c'.serialKey = c.serialKey := Prod.ext (hca'.trans hca.symm) hserial
    exact s.certificates.eq_of_key hc' hc hsame ▸ hrevoked

/-! ## A key that comes back -/

/-- Keys that are their own text. -/
def plainCodec : KeyCodec String := ⟨id, some, fun _ => rfl⟩

def admin : Admission := .ok ⟨"admin", true⟩

/-- An authority with the imported key `K` issues a certificate, which is revoked; the
authority rotates to a generated key without an overlap. -/
def revokedThenRotated : List (Op String) :=
  [.createCA admin "ca" "deploy" ⟨"key1", "K"⟩ 0,
    .createProfile admin "profile" ⟨"ca", "ops", ["root"], [], [.ed25519], 3600, 3600, true,
      ["admin"]⟩,
    .issue admin (.ok ()) "certificate" ⟨7, by decide, by decide⟩
      ⟨"profile", .ed25519, [], none, 0⟩ 0,
    .revokeCertificate admin "certificate",
    .rotateCA admin "ca" ⟨"key2", "G"⟩ (some 0) second]

/-- The rotation after that brings `K` back. -/
def keyBroughtBack : List (Op String) :=
  revokedThenRotated ++ [.rotateCA admin "ca" ⟨"key3", "K"⟩ (some 0) (2 * second)]

def allNames : String → Bool := fun _ => true

theorem rotatedAway_not_trusted : RevocationHolds plainCodec
    (Tx.exec (step allNames) SSHTables.initial revokedThenRotated) "ca" (3 * second) := by
  refine revoked_never_trusted_again allNames plainCodec revokedThenRotated ?_ "ca" (3 * second)
  refine ⟨trivial, trivial, trivial, trivial, ?_, trivial⟩
  show ∀ k ∈ (Tx.exec (step allNames) SSHTables.initial (revokedThenRotated.take 4)).keys.rows,
    k.caID = "ca" → k.publicKey ≠ "G"
  decide +kernel

/-- **An imported key that comes back brings back what was revoked under it.** -/
theorem reimported_key_forgets_revocation : ¬ RevocationHolds plainCodec
    (Tx.exec (step allNames) SSHTables.initial keyBroughtBack) "ca" (3 * second) := by
  intro h
  have hstate : ∃ c ∈ (Tx.exec (step allNames) SSHTables.initial keyBroughtBack).certificates.rows,
      c.caID = "ca" ∧ c.state = .revoked ∧ 3 * second < c.validBefore ∧ c.serial.value = 7 ∧
        ∃ k ∈ (Tx.exec (step allNames) SSHTables.initial keyBroughtBack).keys.rows,
          k.id = c.caKeyID ∧ k.publicKey = "K" := by decide +kernel
  obtain ⟨c, hc, hca, hrevoked, hexpires, -, k, hk, hkid, hkey⟩ := hstate
  have hbundle : trustedKeys plainCodec
      (Tx.exec (step allNames) SSHTables.initial keyBroughtBack) "ca" (3 * second) =
        .ok [⟨"K", "deploy", "key3"⟩] := by decide +kernel
  have hlist : krl plainCodec
      (Tx.exec (step allNames) SSHTables.initial keyBroughtBack) "ca" (3 * second) =
        .ok ⟨3, 3 * second, "hikyo ssh-ca ca", []⟩ := by decide +kernel
  rcases h.1 c hc hca hrevoked hexpires k hk hkid _ hbundle
    ⟨_, mem_singleton_self _, congrArg some hkey.symm⟩ with hlarge | ⟨list, hok, hlists⟩
  · rw [hlist] at hlarge
    cases hlarge
  · rw [hlist] at hok
    cases hok
    obtain ⟨sec, hsec, -⟩ := hlists
    cases hsec

end Hikyo.SSH
