import Hikyo.Compose.SnapshotStore

/-!
# An older snapshot is never served again

The snapshot and its high-water mark are two files, so a crash leaves them out of step; and the
snapshot file – never the mark – may be deleted or replaced by any snapshot that was saved earlier.
`snapshots_resist_rollback` says that a load returns, after any such history, a payload that was
saved under the issuance it is returned with, and that this issuance is not older than any that a
save of the scope has reported as saved.

The mark of a scope only moves forward: a save that reaches its second write has
compared its issuance with the mark (`safe_saveSnapshot`), and nothing else writes
marks (`marked_step`). The load compares with the newest mark it finds, which is
at least the one of the scope's own slot (`reads_snapshotHWM`). That the payload
belongs to the header is the cipher's doing: every snapshot file, wherever it
stands, holds a container some save made (`made_step`).
-/

namespace Hikyo.Compose

open List
open Tx (exec bind_ok skip ensured checked)

variable {B : Type} (F : SnapshotFormat B)

/-! ## Programs that only read -/

variable {dir : String} {record : B}

section Reading

variable {α β : Type} {s : Files B}

/-- **A program that reads from `s`** and, if it has a result, one with `post`. -/
def Reads (s : Files B) (p : FileProgram B α) (post : α → Prop) : Prop :=
  Prog.Safe execFile (· = s) (fun r _ => ∀ a, r = .ok a → post a) p.run s

variable {post : α → Prop} {mid : β → Prop}

theorem reads_ofExcept {x : Except SnapshotError α} (h : ∀ a, x = .ok a → post a) :
    Reads s (ofExcept x) post := ⟨rfl, h⟩

theorem reads_pure {a : α} (h : post a) : Reads s (pure a) post :=
  ⟨rfl, fun _ hb => Except.ok.inj hb ▸ h⟩

variable {f : β → FileProgram B α}

theorem reads_bind {p : FileProgram B β} (h : Reads s p mid)
    (hf : ∀ b, mid b → Reads s (f b) post) : Reads s (p >>= f) post := by
  refine Prog.safe_except_bind h (fun d t _ _ a ha => nomatch ha) fun b t ht hmid => ?_
  subst ht
  exact hf b (hmid b rfl)

theorem reads_ofExcept_bind {x : Except SnapshotError β}
    (h : ∀ b, x = .ok b → Reads s (f b) post) : Reads s (ofExcept x >>= f) post :=
  reads_bind (reads_ofExcept fun _ hb => hb) h

theorem Reads.mono {p : FileProgram B α} {post' : α → Prop} (h : Reads s p post)
    (hpost : ∀ a, post a → post' a) : Reads s p post' :=
  Prog.Safe.mono h fun _ _ _ hr a ha => hpost a (hr a ha)

theorem reads_lockSnapshots (dir : String) : Reads s (lockSnapshots dir) fun _ => True := by
  refine ⟨rfl, fun e => ?_⟩
  cases e with
  | success | failure | lateFailure => exact ⟨rfl, fun _ _ => trivial⟩

theorem reads_readFile (path : FilePath) :
    Reads s (readFile path) fun c => c = (s.find? path).map Prod.snd := by
  refine ⟨rfl, fun e => ?_⟩
  cases e with
  | success => exact ⟨rfl, fun _ ha => (Except.ok.inj ha).symm⟩
  | failure | lateFailure => exact ⟨rfl, nofun⟩

theorem reads_readDir (dir : String) : Reads s (readDir dir) fun _ => True := by
  refine ⟨rfl, fun e => ?_⟩
  cases e with
  | success | failure | lateFailure => exact ⟨rfl, fun _ _ => trivial⟩

/-- A record that stands in some snapshot file. -/
def Held (s : Files B) (record : B) : Prop :=
  ∃ path : FilePath, path.isMark = false ∧ s.find? path = some (path, record)

variable {slot : Slot}

theorem held_of_readFile
    (h : some record = (s.find? ⟨dir, .snapshot slot⟩).map Prod.snd) : Held s record := by
  obtain ⟨⟨path, content⟩, hfind, hrecord⟩ := Option.map_eq_some_iff.mp h.symm
  obtain rfl : content = record := hrecord
  obtain ⟨-, hpath⟩ := Table.Keyed.find?_eq_some.mp hfind
  obtain rfl : path = ⟨dir, .snapshot slot⟩ := hpath
  exact ⟨_, rfl, hfind⟩

theorem record_of_compatibleRecord {expect : SnapshotBinding} {found : Option (CompatibleSnapshot B)}
    (h : compatibleRecord F expect dir slot record = .ok found) :
    ∀ c ∈ found, c.record = record := by
  unfold compatibleRecord at h
  intro c hc
  split at h
  next => exact absurd (Except.ok.inj h ▸ hc) (by simp)
  next =>
    split at h
    next => exact absurd (Except.ok.inj h ▸ hc) (by simp)
    next =>
      split at h
      case isFalse => exact absurd (Except.ok.inj h ▸ hc) (by simp)
      case isTrue =>
        obtain ⟨aad, -, h⟩ := bind_ok h
        obtain ⟨issued, -, h⟩ := bind_ok h
        rw [← Except.ok.inj h] at hc
        exact Option.some.inj hc ▸ rfl

theorem reads_scanSlots (expect : SnapshotBinding) (dir : String) (current : FilePath)
    (names : List FileName) :
    Reads s (scanSlots F expect dir current names) fun cs => ∀ c ∈ cs, Held s c.record := by
  induction names with
  | nil => exact reads_pure nofun
  | cons name names ih =>
    cases name with
    | mark slot | other name => exact ih
    | snapshot slot =>
      unfold scanSlots
      split
      case isFalse => exact ih
      case isTrue =>
        refine reads_bind (reads_readFile _) fun content hcontent => ?_
        cases content with
        | none => exact reads_ofExcept nofun
        | some record =>
          refine reads_bind (reads_ofExcept fun found h => record_of_compatibleRecord F h)
            fun found hfound => ?_
          refine reads_bind ih fun rest hrest => reads_pure fun c hc => ?_
          rcases mem_append.mp hc with hc | hc
          · rw [hfound c (Option.mem_toList.mp hc)]
            exact held_of_readFile hcontent
          · exact hrest c hc

theorem reads_compatibleSnapshots (expect : SnapshotBinding) :
    Reads s (compatibleSnapshots F expect) fun cs => ∀ c ∈ cs, Held s c.record := by
  refine reads_ofExcept_bind fun dir _ => reads_ofExcept_bind fun paths _ => ?_
  exact reads_bind (reads_readDir dir) fun names _ => reads_scanSlots F expect dir paths.1 names

end Reading

/-! ## Marks -/

variable {path : FilePath} {t issued : ℤ} {b : SnapshotBinding} {mark : Option (HighWaterMark × ℤ)}
  {digest : String}

section Marks

variable {s : Files B}

/-- The instant of the mark at a path. -/
def markTime (s : Files B) (path : FilePath) : Option ℤ := do
  let file ← s.find? path
  let m ← F.parseMark file.2
  F.parseTime m.issuedAt

variable {F}

theorem markTime_eq_some : markTime F s path = some t ↔
      ∃ content m, s.find? path = some (path, content) ∧ F.parseMark content = some m ∧
        F.parseTime m.issuedAt = some t := by
  unfold markTime
  constructor
  · intro h
    obtain ⟨⟨path', content⟩, hfind, h⟩ := Option.bind_eq_some_iff.mp h
    obtain ⟨m, hm, ht⟩ := Option.bind_eq_some_iff.mp h
    obtain rfl : path' = path := (Table.Keyed.find?_eq_some.mp hfind).2
    exact ⟨content, m, hfind, hm, ht⟩
  · rintro ⟨content, m, hfind, hm, ht⟩
    rw [hfind, Option.bind_eq_bind, Option.bind_some, hm]
    exact ht

theorem markTime_congr {s' : Files B} (h : s'.find? path = s.find? path) :
    markTime F s' path = markTime F s path := by
  unfold markTime
  rw [h]

theorem readTime_eq_ok {field value : String} :
    readTime F field value = .ok t ↔ F.parseTime value = some t := by
  unfold readTime
  cases F.parseTime value with
  | none => exact iff_of_false nofun nofun
  | some t' => exact ⟨fun h => congrArg some (Except.ok.inj h), fun h => by cases h; rfl⟩

theorem reads_readMarks (paths : List FilePath) : Reads s (readMarks F paths) fun ms =>
      ∀ path ∈ paths, ∀ t, markTime F s path = some t → ∃ m, (m, t) ∈ ms := by
  induction paths with
  | nil => exact reads_pure nofun
  | cons path paths ih =>
    have hhead : Reads s (readHWM F path) fun m =>
        ∀ t, markTime F s path = some t → ∃ m', m = some m' ∧ F.parseTime m'.issuedAt = some t := by
      refine reads_bind (reads_readFile path) fun content hcontent => ?_
      cases content with
      | none =>
        refine reads_pure fun t ht => ?_
        obtain ⟨content, m, hfind, -⟩ := markTime_eq_some.mp ht
        rw [hfind] at hcontent
        cases hcontent
      | some content =>
        cases hm : F.parseMark content with
        | none =>
          simp only [hm]
          exact reads_ofExcept nofun
        | some m =>
          simp only [hm]
          refine reads_pure fun t ht => ?_
          obtain ⟨content', m', hfind, hm', ht⟩ := markTime_eq_some.mp ht
          rw [hfind] at hcontent
          rw [Option.some.inj hcontent, hm'] at hm
          exact ⟨m', hm.symm, ht⟩
    refine reads_bind hhead fun m hm => ?_
    cases m with
    | none =>
      refine Reads.mono ih fun ms hms path' hpath' t ht => ?_
      rcases mem_cons.mp hpath' with rfl | hpath'
      · obtain ⟨m', hm', -⟩ := hm t ht
        cases hm'
      · exact hms path' hpath' t ht
    | some m =>
      refine reads_bind (reads_ofExcept fun t h => readTime_eq_ok.mp h) fun issued hissued => ?_
      refine reads_bind ih fun rest hrest => reads_pure fun path' hpath' t ht => ?_
      rcases mem_cons.mp hpath' with rfl | hpath'
      · obtain ⟨m', hm', htime⟩ := hm t ht
        cases hm'
        cases hissued.symm.trans htime
        exact ⟨m, mem_cons_self⟩
      · obtain ⟨m', hm'⟩ := hrest path' hpath' t ht
        exact ⟨m', mem_cons_of_mem _ hm'⟩

theorem le_newestMark {m : HighWaterMark × ℤ} {ms : List (HighWaterMark × ℤ)} (hm : m ∈ ms) :
    ∃ n, newestMark ms = some n ∧ m.2 ≤ n.2 := by
  induction ms with
  | nil => cases hm
  | cons m' ms ih =>
    unfold newestMark
    cases hnewest : newestMark ms with
    | none =>
      rcases mem_cons.mp hm with rfl | hm
      · exact ⟨m, rfl, le_rfl⟩
      · obtain ⟨n, hn, -⟩ := ih hm
        cases hnewest.symm.trans hn
    | some n =>
      have hrest : m ∈ ms → m.2 ≤ n.2 := by
        intro hm
        obtain ⟨n', hn', hle⟩ := ih hm
        cases hnewest.symm.trans hn'
        exact hle
      by_cases hlt : m'.2 < n.2
      · refine ⟨n, if_pos hlt, ?_⟩
        rcases mem_cons.mp hm with rfl | hm
        · exact hlt.le
        · exact hrest hm
      · refine ⟨m', if_neg hlt, ?_⟩
        rcases mem_cons.mp hm with rfl | hm
        · exact le_rfl
        · exact (hrest hm).trans (not_lt.mp hlt)

/-- **The mark that is compared with is at least the scope's own.** -/
theorem reads_snapshotHWM {paths : FilePath × FilePath}
    (hpaths : snapshotPaths F b = .ok paths) : Reads s (snapshotHWM F b) fun r =>
      ∀ t, markTime F s paths.2 = some t → ∃ n, r = some n ∧ t ≤ n.2 := by
  refine reads_ofExcept_bind fun paths' hpaths' => ?_
  obtain rfl := Except.ok.inj (hpaths.symm.trans hpaths')
  refine reads_ofExcept_bind fun dir _ => reads_ofExcept_bind fun key _ => ?_
  refine reads_bind (reads_compatibleSnapshots F b) fun compatible _ => ?_
  refine reads_bind (reads_readMarks _) fun marks hmarks => ?_
  have hown := hmarks paths.2 (mem_append_left _ mem_cons_self)
  split
  next hnone =>
    refine reads_pure fun t ht => ?_
    obtain ⟨m, hm⟩ := hown t ht
    obtain ⟨n, hn, -⟩ := le_newestMark hm
    cases hnone.symm.trans hn
  next newest hnewest =>
    refine reads_ofExcept_bind fun _ _ => reads_pure fun t ht => ?_
    obtain ⟨m, hm⟩ := hown t ht
    obtain ⟨n, hn, hle⟩ := le_newestMark hm
    cases hnewest.symm.trans hn
    exact ⟨newest, rfl, hle⟩

theorem le_of_checkMark (h : checkMark mark issued digest = .ok ()) : ∀ n ∈ mark, n.2 ≤ issued := by
  rintro ⟨m, t⟩ hn
  obtain rfl : mark = some (m, t) := hn
  obtain ⟨_, hnewer, _⟩ := bind_ok h
  exact not_lt.mp (ensured hnewer)

end Marks

/-! ## Saving -/

variable {payload : SnapshotPayload}

section Saving

variable {F} {s : Files B}

/-- The files after the first and after the second write of a save. -/
def SaveFiles.first (files : SaveFiles B) (s : Files B) : Files B :=
  s.put (files.snapshot, files.container)

def SaveFiles.both (files : SaveFiles B) (s : Files B) : Files B :=
  (files.first s).put (files.hwm, files.mark)

/-- **The states of a save**: as it was, or with the first or with both writes; and
it does not write before its issuance has passed the mark. -/
def Saving (F : SnapshotFormat B) (files : SaveFiles B) (s t : Files B) : Prop :=
  t = s ∨ ((∀ m, markTime F s files.hwm = some m → m ≤ files.issued) ∧
    (t = files.first s ∨ t = files.both s))

/-- What `prepareSave` prepares. -/
structure Prepared (F : SnapshotFormat B) (b : SnapshotBinding) (payload : SnapshotPayload)
    (rnd : B) (files : SaveFiles B) : Prop where
  paths : snapshotPaths F b = .ok (files.snapshot, files.hwm)
  issued : ∃ aad, b.aad F = .ok aad ∧ F.parseTime aad.issuedAt = some files.issued ∧
    (∃ digest, files.mark = F.mark ⟨aad.issuedAt, digest⟩) ∧
    F.fits (aad.canonical F) = true ∧
    files.container =
      F.frame (aad.canonical F) (F.sealSnapshot rnd (aad.canonical F) (F.payload payload))

variable {rnd : B} {files : SaveFiles B}

theorem prepared_of_prepareSave
    (h : prepareSave F b payload rnd = .ok (files, digest)) : Prepared F b payload rnd files := by
  replace h := skip h
  obtain ⟨header, hheader, h⟩ := bind_ok h
  obtain ⟨aad, haad, h⟩ := bind_ok h
  obtain ⟨issued, hissued, h⟩ := bind_ok h
  obtain ⟨hfits, h⟩ := checked h
  obtain ⟨paths, hpaths, h⟩ := bind_ok h
  obtain ⟨aad', haad', hheader⟩ := bind_ok hheader
  cases haad.symm.trans haad'
  cases hheader
  cases h
  exact ⟨hpaths, aad, haad, readTime_eq_ok.mp hissued, ⟨_, rfl⟩, hfits, rfl⟩

variable {inv : Files B → Prop}

theorem safe_atomicWrite {t : Files B} {data : B}
    (ht : inv t) (hwritten : inv (t.put (path, data))) :
    Prog.Safe execFile inv (fun r t' => r = .ok () → t' = t.put (path, data))
      (atomicWrite path data).run t := by
  refine ⟨ht, fun e => ?_⟩
  cases e with
  | success => exact ⟨hwritten, fun _ => rfl⟩
  | failure => exact ⟨ht, nofun⟩
  | lateFailure => exact ⟨hwritten, nofun⟩

/-- A program that reads, then one that may write. -/
theorem safe_reads_bind {α β : Type} {p : FileProgram B α}
    {f : α → FileProgram B β} {mid : α → Prop} {post : Except SnapshotError β → Files B → Prop}
    (h : Reads s p mid) (hs : inv s) (herror : ∀ d, post (.error d) s)
    (hf : ∀ a, mid a → Prog.Safe execFile inv post (f a).run s) :
    Prog.Safe execFile inv post (p >>= f).run s := by
  have hread : Prog.Safe execFile inv (fun r t => t = s ∧ ∀ a, r = .ok a → mid a) p.run s :=
    Prog.Safe.weaken h (fun t ht => ht ▸ hs) fun r t ht hr => ⟨ht, hr⟩
  refine Prog.safe_except_bind hread ?_ ?_
  · rintro d t - ⟨rfl, -⟩
    exact herror d
  · rintro a t - ⟨rfl, hmid⟩
    exact hf a (hmid a rfl)

theorem safe_saveSnapshot (b : SnapshotBinding) (payload : SnapshotPayload) (rnd : B) :
    Prog.Safe execFile
      (fun t => t = s ∨ ∃ files, Prepared F b payload rnd files ∧ Saving F files s t)
      (fun r t => r = .ok () → ∃ files, Prepared F b payload rnd files ∧ t = files.both s)
      (saveSnapshot F b payload rnd).run s := by
  have hfail : ∀ d : SnapshotError, (Except.error d : Except SnapshotError Unit) = .ok () →
      ∃ files, Prepared F b payload rnd files ∧ s = files.both s := nofun
  refine safe_reads_bind (reads_ofExcept fun r h => prepared_of_prepareSave h) (.inl rfl) hfail ?_
  rintro ⟨files, digest⟩ hprepared
  refine safe_reads_bind (reads_lockSnapshots _) (.inl rfl) hfail fun _ _ => ?_
  refine safe_reads_bind (reads_snapshotHWM hprepared.paths) (.inl rfl) hfail fun mark hmark => ?_
  refine safe_reads_bind (reads_ofExcept fun _ h => h) (.inl rfl) hfail fun _ hcheck => ?_
  have hbound : ∀ m, markTime F s files.hwm = some m → m ≤ files.issued := by
    intro m hm
    obtain ⟨n, hn, hle⟩ := hmark m hm
    exact hle.trans (le_of_checkMark hcheck n hn)
  have hfirst : Saving F files s (files.first s) := .inr ⟨hbound, .inl rfl⟩
  have hboth : Saving F files s (files.both s) := .inr ⟨hbound, .inr rfl⟩
  refine Prog.safe_except_bind (safe_atomicWrite (.inl rfl) (.inr ⟨files, hprepared, hfirst⟩))
    (fun _ _ _ _ h => nomatch h) fun _ t _ ht => ?_
  obtain rfl : t = files.first s := ht rfl
  refine Prog.Safe.mono (safe_atomicWrite (.inr ⟨files, hprepared, hfirst⟩)
    (.inr ⟨files, hprepared, hboth⟩)) fun r t _ hr hok => ⟨files, hprepared, hr hok⟩

/-- What one attempt to save leaves, and what it means that it reports success. -/
theorem run_saveSnapshot (b : SnapshotBinding) (payload : SnapshotPayload) (rnd : B)
    (script : List FileChoice) :
    ((Prog.run execFile (saveSnapshot F b payload rnd).run script s).2 = s ∨
      ∃ files, Prepared F b payload rnd files ∧
        Saving F files s (Prog.run execFile (saveSnapshot F b payload rnd).run script s).2) ∧
    ((Prog.run execFile (saveSnapshot F b payload rnd).run script s).1 = some (.ok ()) →
      ∃ files, Prepared F b payload rnd files ∧
        (Prog.run execFile (saveSnapshot F b payload rnd).run script s).2 = files.both s) := by
  obtain ⟨hinv, hpost⟩ := Prog.run_safe (safe_saveSnapshot (F := F) (s := s) b payload rnd) script
  exact ⟨hinv, fun h => hpost _ h rfl⟩

theorem Prepared.isMark (h : Prepared F b payload rnd files) :
    files.snapshot.isMark = false ∧ files.hwm.isMark = true := by
  obtain ⟨dir, -, hpaths⟩ := bind_ok h.paths
  obtain ⟨key, -, hpaths⟩ := bind_ok hpaths
  obtain ⟨hsnapshot, hhwm⟩ := Prod.mk.inj (Except.ok.inj hpaths)
  rw [← hsnapshot, ← hhwm]
  exact ⟨rfl, rfl⟩

theorem Prepared.markTime_both (h : Prepared F b payload rnd files) :
    markTime F (files.both s) files.hwm = some files.issued := by
  obtain ⟨aad, -, htime, ⟨digest, hmark⟩, -⟩ := h.issued
  refine markTime_eq_some.mpr ⟨files.mark, ⟨aad.issuedAt, digest⟩, ?_, ?_, htime⟩
  · exact Table.Keyed.find?_put_self
  · rw [hmark]
    exact F.parseMark_mark _

end Saving

/-! ## Histories -/

section Histories

variable [DecidableEq B]

/-- The files, and every snapshot that was ever seen on the disk. -/
structure SnapshotSystem (B : Type) where
  files : Files B
  seen : List B

/-- What happens: attempts to save, wherever they end, and tampering with the
snapshot files. -/
inductive SnapshotOp (B : Type) where
  | save (binding : SnapshotBinding) (payload : SnapshotPayload) (rnd : B)
      (script : List FileChoice)
  | delete (path : FilePath)
  | replace (path : FilePath) (record : B)

/-- The contents of the snapshot files. -/
def snapshotRecords (s : Files B) : List B :=
  (s.rows.filter fun f => !f.1.isMark).map Prod.snd

/-- The files after an attempt to save. -/
def saved (s : Files B) (b : SnapshotBinding) (payload : SnapshotPayload) (rnd : B)
    (script : List FileChoice) : Files B :=
  (Prog.run execFile (saveSnapshot F b payload rnd).run script s).2

def SnapshotSystem.step (s : SnapshotSystem B) : SnapshotOp B → SnapshotSystem B
  | .save b payload rnd script =>
    ⟨saved F s.files b payload rnd script,
      s.seen ++ snapshotRecords (saved F s.files b payload rnd script)⟩
  | .delete path =>
    -- the high-water mark is out of the adversary's reach
    if path.isMark then s else { s with files := s.files.delete fun f => f.1 = path }
  | .replace path record =>
    if path.isMark = false ∧ record ∈ s.seen then { s with files := s.files.put (path, record) }
    else s

variable {F}

variable {s : Files B}

omit [DecidableEq B] in
theorem mem_snapshotRecords :
    record ∈ snapshotRecords s ↔ ∃ path : FilePath, path.isMark = false ∧ (path, record) ∈ s.rows := by
  unfold snapshotRecords
  rw [mem_map]
  constructor
  · rintro ⟨⟨path, record'⟩, hmem, rfl⟩
    obtain ⟨hmem, hmark⟩ := mem_filter.mp hmem
    exact ⟨path, by simpa using hmark, hmem⟩
  · rintro ⟨path, hmark, hmem⟩
    exact ⟨(path, record), mem_filter.mpr ⟨hmem, by simpa using hmark⟩, rfl⟩

omit [DecidableEq B] in
theorem Held.mem (h : Held s record) : record ∈ snapshotRecords s := by
  obtain ⟨path, hmark, hfind⟩ := h
  exact mem_snapshotRecords.mpr ⟨path, hmark, (Table.Keyed.find?_eq_some.mp hfind).1⟩

/-! ### The mark moves forward -/

/-- The mark at a path is there and not before `t`. -/
def Marked (F : SnapshotFormat B) (path : FilePath) (t : ℤ) (s : Files B) : Prop :=
  ∃ m, markTime F s path = some m ∧ t ≤ m

omit [DecidableEq B] in
theorem Marked.congr {s' : Files B} (h : Marked F path t s)
    (hfind : s'.find? path = s.find? path) : Marked F path t s' := by
  obtain ⟨m, hm, hle⟩ := h
  exact ⟨m, (markTime_congr hfind).trans hm, hle⟩

omit [DecidableEq B] in
/-- A file that is not a mark may be written without moving a mark. -/
theorem Marked.put {path' : FilePath} (h : Marked F path t s) (hpath : path.isMark = true)
    (hpath' : path'.isMark = false) : Marked F path t (s.put (path', record)) := by
  refine h.congr (Table.Keyed.find?_put_of_ne fun heq => ?_)
  obtain rfl : path' = path := heq
  cases hpath.symm.trans hpath'

variable {s : SnapshotSystem B}

theorem marked_step (hpath : path.isMark = true) (op : SnapshotOp B) (h : Marked F path t s.files) :
    Marked F path t (s.step F op).files := by
  cases op with
  | delete path' =>
    simp only [SnapshotSystem.step]
    split
    case isTrue => exact h
    case isFalse hmark =>
      refine h.congr (Table.Keyed.find?_delete_of_not fun f hf => decide_eq_false fun heq => ?_)
      exact hmark (by rw [← heq, hf, hpath])
  | replace path' record =>
    simp only [SnapshotSystem.step]
    split
    case isTrue hmark => exact h.put hpath hmark.1
    case isFalse => exact h
  | save b payload rnd script =>
    show Marked F path t (saved F s.files b payload rnd script)
    unfold saved
    rcases (run_saveSnapshot (F := F) (s := s.files) b payload rnd script).1 with hsame | hsaving
    · rw [hsame]
      exact h
    obtain ⟨files, hprepared, hsame | ⟨hbound, hfirst | hboth⟩⟩ := hsaving
    · rw [hsame]
      exact h
    · rw [hfirst]
      exact h.put hpath hprepared.isMark.1
    · rw [hboth]
      by_cases heq : files.hwm = path
      · subst heq
        obtain ⟨m, hm, hle⟩ := h
        exact ⟨files.issued, hprepared.markTime_both, hle.trans (hbound m hm)⟩
      · have hfirst : Marked F path t (files.first s.files) := h.put hpath hprepared.isMark.1
        exact hfirst.congr (Table.Keyed.find?_put_of_ne heq)

theorem marked_exec (hpath : path.isMark = true) (ops : List (SnapshotOp B)) (s : SnapshotSystem B)
    (h : Marked F path t s.files) : Marked F path t (exec (SnapshotSystem.step F) s ops).files :=
  Tx.exec_invariant (fun s => Marked F path t s.files) (fun _ op h => marked_step hpath op h) ops s h

/-- **A mark never goes back.** In every run of saves, each of which may stop anywhere, and of
snapshot files deleted or put back, the mark of a scope stays and its time does not fall. -/
theorem mark_never_falls (F : SnapshotFormat B) (s : SnapshotSystem B)
    (path : {path : FilePath // path.isMark = true}) (ops : List (SnapshotOp B)) :
    {t | Marked F path t s.files} ⊆
      {t | Marked F path t (exec (SnapshotSystem.step F) s ops).files} :=
  fun _ h => marked_exec path.2 ops s h

/-! ### Where the snapshots come from -/

/-- A container that one of the saves made. -/
def Made (F : SnapshotFormat B) (ops : List (SnapshotOp B)) (record : B) : Prop :=
  ∃ b payload rnd script files, SnapshotOp.save b payload rnd script ∈ ops ∧
    Prepared F b payload rnd files ∧ record = files.container

theorem made_step {ops : List (SnapshotOp B)} {op : SnapshotOp B} (hop : op ∈ ops)
    (h : ∀ record ∈ snapshotRecords s.files ++ s.seen, Made F ops record) :
    ∀ record ∈ snapshotRecords (s.step F op).files ++ (s.step F op).seen, Made F ops record := by
  have hfiles : ∀ record ∈ snapshotRecords s.files, Made F ops record :=
    fun record hr => h record (mem_append_left _ hr)
  have hseen : ∀ record ∈ s.seen, Made F ops record :=
    fun record hr => h record (mem_append_right _ hr)
  have hput : ∀ {path : FilePath} {record : B} {s : Files B},
      (∀ r ∈ snapshotRecords s, Made F ops r) → (path.isMark = false → Made F ops record) →
      ∀ r ∈ snapshotRecords (s.put (path, record)), Made F ops r := by
    intro path record s hs hrecord r hr
    obtain ⟨path', hmark, hmem⟩ := mem_snapshotRecords.mp hr
    rcases Table.Keyed.mem_put.mp hmem with heq | ⟨hmem, -⟩
    · obtain ⟨rfl, rfl⟩ := Prod.mk.inj heq
      exact hrecord hmark
    · exact hs r (mem_snapshotRecords.mpr ⟨path', hmark, hmem⟩)
  cases op with
  | delete path =>
    simp only [SnapshotSystem.step]
    split
    case isTrue => exact h
    case isFalse =>
      intro record hr
      rcases mem_append.mp hr with hr | hr
      · obtain ⟨path', hmark, hmem⟩ := mem_snapshotRecords.mp hr
        exact hfiles record (mem_snapshotRecords.mpr ⟨path', hmark,
          (Table.Keyed.mem_delete.mp hmem).1⟩)
      · exact hseen record hr
  | replace path record =>
    simp only [SnapshotSystem.step]
    split
    case isTrue hreplace =>
      intro r hr
      rcases mem_append.mp hr with hr | hr
      · exact hput hfiles (fun _ => hseen record hreplace.2) r hr
      · exact hseen r hr
    case isFalse => exact h
  | save b payload rnd script =>
    have hsaved : ∀ r ∈ snapshotRecords (saved F s.files b payload rnd script), Made F ops r := by
      unfold saved
      rcases (run_saveSnapshot (F := F) (s := s.files) b payload rnd script).1 with hsame | hsaving
      · rw [hsame]
        exact hfiles
      obtain ⟨files, hprepared, hstate⟩ := hsaving
      have hfirst : ∀ r ∈ snapshotRecords (files.first s.files), Made F ops r :=
        hput hfiles fun _ => ⟨b, payload, rnd, script, files, hop, hprepared, rfl⟩
      rcases hstate with hsame | ⟨-, hone | hboth⟩
      · rw [hsame]
        exact hfiles
      · rw [hone]
        exact hfirst
      · rw [hboth]
        refine hput hfirst fun hmark => ?_
        cases hmark.symm.trans hprepared.isMark.2
    intro r hr
    rcases mem_append.mp hr with hr | hr
    · exact hsaved r hr
    · rcases mem_append.mp hr with hr | hr
      · exact hseen r hr
      · exact hsaved r hr

theorem made_exec {all : List (SnapshotOp B)} :
    ∀ (ops : List (SnapshotOp B)) (s : SnapshotSystem B), (∀ op ∈ ops, op ∈ all) →
      (∀ record ∈ snapshotRecords s.files ++ s.seen, Made F all record) →
      ∀ record ∈ snapshotRecords (exec (SnapshotSystem.step F) s ops).files, Made F all record
  | [], _, _, h => fun record hr => h record (mem_append_left _ hr)
  | op :: ops, s, hall, h =>
    made_exec ops (s.step F op) (fun op' hop' => hall op' (mem_cons_of_mem _ hop'))
      (made_step (hall op mem_cons_self) h)

end Histories

/-! ## Loading -/

variable {binding : SnapshotBinding}

section Loading

variable {F} {s : Files B}

/-- The issuance of a complete binding. -/
def SnapshotBinding.issuance (F : SnapshotFormat B) (b : SnapshotBinding) : Option ℤ :=
  b.delivery.bind fun d => F.parseTime d.issuedAt

variable {a : SnapshotAAD}

theorem issuedAt_of_aad (h : b.aad F = .ok a) : b.issuance F = F.parseTime a.issuedAt := by
  obtain ⟨delivery, hdelivery, h⟩ := bind_ok h
  obtain ⟨_, _, hdelivery⟩ := bind_ok hdelivery
  cases h
  unfold SnapshotBinding.issuance
  split at hdelivery
  next => cases hdelivery
  next d hd =>
    obtain ⟨_, _, hdelivery⟩ := bind_ok hdelivery
    cases hdelivery
    rw [hd]
    rfl

/-- **A header reads back with its issuance.** -/
theorem issuance_of_parse (h : SnapshotBinding.parse F dir (a.canonical F) = .ok b) :
    b.issuance F = F.parseTime a.issuedAt := by
  unfold SnapshotBinding.parse SnapshotAAD.canonical at h
  rw [F.parseHeader_header] at h
  obtain ⟨located, -, h⟩ := bind_ok h
  obtain ⟨delivery, hdelivery, h⟩ := bind_ok (skip (skip h))
  cases h
  replace hdelivery := skip (skip (skip (skip (skip hdelivery))))
  obtain ⟨projection, -, hdelivery⟩ := bind_ok hdelivery
  obtain ⟨issued, hissued, hdelivery⟩ := bind_ok hdelivery
  obtain ⟨expires, -, hdelivery⟩ := bind_ok hdelivery
  replace hdelivery := skip hdelivery
  cases hdelivery
  show F.parseTime (F.formatTime issued) = F.parseTime a.issuedAt
  rw [F.parseTime_formatTime, readTime_eq_ok.mp hissued]

/-- What a load that succeeds has found. -/
structure Loaded (F : SnapshotFormat B) (s : Files B) (expect : SnapshotBinding)
    (payload : SnapshotPayload) (binding : SnapshotBinding) : Prop where
  record : ∃ record header sealed dir plaintext, Held s record ∧
    F.unframe record = some (header, sealed) ∧
    SnapshotBinding.parse F dir header = .ok binding ∧
    F.openSnapshot header sealed = some plaintext ∧ F.parsePayload plaintext = some payload
  newest : ∃ issued, binding.issuance F = some issued ∧
    ∀ paths, snapshotPaths F expect = .ok paths → ∀ t, markTime F s paths.2 = some t → t ≤ issued

theorem mem_of_newestCompatible {cs : List (CompatibleSnapshot B)} {c : CompatibleSnapshot B}
    (h : newestCompatible cs = some c) : c ∈ cs := by
  have hfold : ∀ (cs : List (CompatibleSnapshot B)) (best : Option (CompatibleSnapshot B) × ℤ),
      (cs.foldl (fun best c => if best.2 < c.issued then (some c, c.issued) else best) best).1 =
        some c → best.1 = some c ∨ c ∈ cs := by
    intro cs
    induction cs with
    | nil => exact fun best h => .inl h
    | cons c' cs ih =>
      intro best h
      rw [foldl_cons] at h
      rcases ih _ h with h | h
      · split at h
        case isTrue => exact .inr (Option.some.inj h ▸ mem_cons_self)
        case isFalse => exact .inl h
      · exact .inr (mem_cons_of_mem _ h)
  rcases hfold cs _ h with h | h
  · cases h
  · exact h

theorem reads_locateSnapshot (expect : SnapshotBinding) :
    Reads s (locateSnapshot F expect) (Held s) := by
  refine reads_ofExcept_bind fun dir hdir => reads_ofExcept_bind fun paths hpaths => ?_
  refine reads_bind (reads_readFile _) fun content hcontent => ?_
  cases content with
  | some record =>
    obtain ⟨dir', -, hpaths⟩ := bind_ok hpaths
    obtain ⟨key, -, hpaths⟩ := bind_ok hpaths
    rw [← Except.ok.inj hpaths] at hcontent
    exact reads_pure (held_of_readFile hcontent)
  | none =>
    refine reads_bind (reads_compatibleSnapshots F expect) fun compatible hcompatible => ?_
    cases hnewest : newestCompatible compatible with
    | some c =>
      exact reads_pure (hcompatible c (mem_of_newestCompatible hnewest))
    | none =>
      refine reads_bind (reads_readFile _) fun content hcontent => ?_
      cases content with
      | some record => exact reads_pure (held_of_readFile hcontent)
      | none => exact reads_ofExcept nofun

theorem openLocated_eq_ok {header sealed : B} {expires : ℤ} {now maxAge : ℤ}
    {out : SnapshotPayload × SnapshotBinding}
    (h : openLocated F binding header sealed issued expires mark now maxAge = .ok out) :
    (∀ n ∈ mark, n.2 ≤ issued) ∧ out.2 = binding ∧
      ∃ plaintext, F.openSnapshot header sealed = some plaintext ∧
        F.parsePayload plaintext = some out.1 := by
  obtain ⟨_, hcheck, h⟩ := bind_ok h
  obtain ⟨_, _, h⟩ := bind_ok h
  refine ⟨le_of_checkMark hcheck, ?_⟩
  split at h
  next => cases h
  next plaintext hopen =>
    split at h
    next => cases h
    next payload hpayload =>
      obtain ⟨_, _, h⟩ := bind_ok h
      cases h
      exact ⟨rfl, plaintext, hopen, hpayload⟩

theorem reads_loadSnapshot (expect : SnapshotBinding) (now maxAge : ℤ) :
    Reads s (loadSnapshot F expect now maxAge) fun out => Loaded F s expect out.1 out.2 := by
  refine reads_ofExcept_bind fun _ _ => reads_ofExcept_bind fun dir _ => ?_
  refine reads_bind (reads_lockSnapshots dir) fun _ _ => ?_
  refine reads_bind (reads_locateSnapshot expect) fun record hrecord => ?_
  cases hunframe : F.unframe record with
  | none => exact reads_ofExcept nofun
  | some parts =>
    obtain ⟨header, sealed⟩ := parts
    refine reads_ofExcept_bind fun binding hbinding => reads_ofExcept_bind fun _ _ => ?_
    refine reads_ofExcept_bind fun aad haad => reads_ofExcept_bind fun issued hissued => ?_
    refine reads_ofExcept_bind fun expires _ => ?_
    have hissuance := (issuedAt_of_aad haad).trans (readTime_eq_ok.mp hissued)
    cases hpaths : snapshotPaths F expect with
    | error e =>
      refine reads_bind (reads_ofExcept_bind fun paths h => nomatch hpaths.symm.trans h)
        fun _ (h : False) => h.elim
    | ok paths =>
      refine reads_bind (reads_snapshotHWM hpaths) fun mark hmark => reads_ofExcept fun out hout => ?_
      obtain ⟨hle, rfl, plaintext, hopen, hpayload⟩ := openLocated_eq_ok hout
      refine ⟨⟨record, header, sealed, dir, plaintext, hrecord, hunframe, hbinding, hopen,
        hpayload⟩, issued, hissuance, fun paths' hpaths' t ht => ?_⟩
      obtain rfl := Except.ok.inj (hpaths.symm.trans hpaths')
      obtain ⟨n, hn, htn⟩ := hmark t ht
      exact htn.trans (hle n hn)

end Loading

/-! ## No rollback -/

section Rollback

variable [DecidableEq B] {F}

omit [DecidableEq B] in
/-- A payload that opens in a container some save made is the payload of that save. -/
theorem saved_of_made {ops : List (SnapshotOp B)} {header sealed : B} {plaintext : B}
    (hmade : Made F ops record) (hunframe : F.unframe record = some (header, sealed))
    (hbinding : SnapshotBinding.parse F dir header = .ok binding)
    (hopen : F.openSnapshot header sealed = some plaintext)
    (hpayload : F.parsePayload plaintext = some payload) :
    ∃ b rnd script, SnapshotOp.save b payload rnd script ∈ ops ∧
      b.issuance F = binding.issuance F := by
  obtain ⟨b, payload', rnd, script, files, hop, hprepared, rfl⟩ := hmade
  obtain ⟨aad, haad, -, -, hfits, hcontainer⟩ := hprepared.issued
  rw [hcontainer, F.unframe_frame _ _ hfits] at hunframe
  obtain ⟨rfl, rfl⟩ := Prod.mk.inj (Option.some.inj hunframe)
  obtain ⟨-, rfl⟩ := F.openSnapshot_seal _ _ _ _ _ hopen
  rw [F.parsePayload_payload] at hpayload
  cases hpayload
  exact ⟨b, rnd, script, hop, (issuedAt_of_aad haad).trans (issuance_of_parse hbinding).symm⟩

/-- **Offline snapshots resist rollback.** -/
theorem snapshots_resist_rollback (F : SnapshotFormat B) (s₀ : SnapshotSystem B)
    (hfiles : ∀ f ∈ s₀.files.rows, f.1.isMark = true) (hseen : s₀.seen = [])
    (ops : List (SnapshotOp B)) (expect : SnapshotBinding) (now maxAge : ℤ)
    (script : List FileChoice) (payload : SnapshotPayload) (binding : SnapshotBinding)
    (hload : (Prog.run execFile (loadSnapshot F expect now maxAge).run script
      (exec (SnapshotSystem.step F) s₀ ops).files).1 = some (.ok (payload, binding))) :
    ∃ issued, binding.issuance F = some issued ∧
      (∃ b rnd sc, SnapshotOp.save b payload rnd sc ∈ ops ∧ b.issuance F = some issued) ∧
      ∀ pre post b p rnd sc, ops = pre ++ SnapshotOp.save b p rnd sc :: post →
        b.scope = expect.scope →
        (Prog.run execFile (saveSnapshot F b p rnd).run sc
          (exec (SnapshotSystem.step F) s₀ pre).files).1 = some (.ok ()) →
        ∃ t, b.issuance F = some t ∧ t ≤ issued := by
  have hloaded := (Prog.run_safe (reads_loadSnapshot (F := F) expect now maxAge) script).2 _ hload
    (payload, binding) rfl
  obtain ⟨record, header, sealed, dir, plaintext, hheld, hunframe, hbinding, hopen, hpayload⟩ :=
    hloaded.record
  obtain ⟨issued, hissued, hnewest⟩ := hloaded.newest
  have hstart : ∀ record ∈ snapshotRecords s₀.files ++ s₀.seen, Made F ops record := by
    intro record hr
    rw [hseen, append_nil] at hr
    obtain ⟨path, hmark, hmem⟩ := mem_snapshotRecords.mp hr
    cases hmark.symm.trans (hfiles _ hmem)
  have hmade := made_exec ops s₀ (fun _ h => h) hstart record hheld.mem
  refine ⟨issued, hissued, ?_, ?_⟩
  · rw [← hissued]
    exact saved_of_made hmade hunframe hbinding hopen hpayload
  · rintro pre post b p rnd sc rfl hscope hsuccess
    obtain ⟨files, hprepared, hstate⟩ := (run_saveSnapshot b p rnd sc).2 hsuccess
    obtain ⟨aad, haad, htime, -⟩ := hprepared.issued
    refine ⟨files.issued, (issuedAt_of_aad haad).trans htime, ?_⟩
    -- the mark this save left is still there, or a newer one is
    have hpaths : snapshotPaths F expect = .ok (files.snapshot, files.hwm) := by
      rw [← hprepared.paths]
      unfold snapshotPaths SnapshotBinding.storageDir SnapshotBinding.storageKey
        SnapshotBinding.validateScope
      rw [hscope]
    have hmarked : Marked F files.hwm files.issued
        (SnapshotSystem.step F (exec (SnapshotSystem.step F) s₀ pre) (.save b p rnd sc)).files := by
      show Marked F files.hwm files.issued (saved F _ b p rnd sc)
      unfold saved
      rw [hstate]
      exact ⟨files.issued, hprepared.markTime_both, le_rfl⟩
    have hlast := marked_exec hprepared.isMark.2 post _ hmarked
    obtain ⟨m, hm, hle⟩ := hlast
    refine hle.trans (hnewest _ hpaths m ?_)
    rw [Tx.exec_append]
    exact hm

/-! ### One save, one load -/

/-- Contents that show what they are made of. -/
inductive PlainContent where
  | header (a : SnapshotAAD)
  | mark (m : HighWaterMark)
  | payload (p : SnapshotPayload)
  | frame (h c : PlainContent)
  | sealed (r h p : PlainContent)
deriving DecidableEq

/-- A format over such contents; an instant is written in unary. -/
def plainFormat : SnapshotFormat PlainContent where
  parseTime s :=
    if s.toList.head? = some '-' then some (1 - s.toList.length) else some s.toList.length
  formatTime t :=
    if t < 0 then String.ofList ('-' :: List.replicate t.natAbs 'i')
    else String.ofList (List.replicate t.natAbs 'i')
  parseTime_formatTime t := by
    by_cases ht : t < 0
    · simp only [if_pos ht, String.toList_ofList, head?_cons, length_cons,
        length_replicate, if_true, Option.some.injEq]
      omega
    · simp only [if_neg ht, String.toList_ofList, head?_replicate, length_replicate]
      rw [if_neg (by split <;> simp), Option.some.injEq]
      omega
  header := .header
  parseHeader
    | .header a => some a
    | _ => none
  parseHeader_header _ := rfl
  mark := .mark
  parseMark
    | .mark m => some m
    | _ => none
  parseMark_mark _ := rfl
  payload := .payload
  parsePayload
    | .payload p => some p
    | _ => none
  parsePayload_payload _ := rfl
  fits _ := true
  frame := .frame
  unframe
    | .frame h c => some (h, c)
    | _ => none
  unframe_frame _ _ _ := rfl
  scopeKey scope := scope.environmentID
  digest
    | .header a => a.changeToken
    | _ => ""
  sealSnapshot := .sealed
  openSnapshot h
    | .sealed _ h' p => if h = h' then some p else none
    | _ => none
  openSnapshot_seal r h h' p q hopen := by
    simp only at hopen
    split at hopen
    case isTrue heq => exact ⟨heq, (Option.some.inj hopen).symm⟩
    case isFalse => cases hopen

/-- A scope, and its snapshot issued at an instant. -/
def plainBinding (issued : ℕ) : SnapshotBinding where
  scope := ⟨"dir", "origin", "org", "project", "env", "fingerprint", false, ["api"]⟩
  delivery := some ⟨"credential", 0, "token", ["read"],
    String.ofList (List.replicate issued 'i'), String.ofList (List.replicate (issued + 5) 'i')⟩

def plainPayload : SnapshotPayload := ⟨[⟨"KEY", "key_1", "secret", "v", "receipt"⟩], []⟩

/-- Two saves of one scope. -/
def plainHistory : List (SnapshotOp PlainContent) :=
  [.save (plainBinding 1) plainPayload (.mark ⟨"", ""⟩) (List.replicate 20 .success),
    .save (plainBinding 2) plainPayload (.mark ⟨"", ""⟩) (List.replicate 20 .success)]

theorem snapshots_resist_rollback_plain :
    ∃ issued, (plainBinding 2).issuance plainFormat = some issued ∧ 2 ≤ issued := by
  obtain ⟨issued, hissued, -, hnewest⟩ := snapshots_resist_rollback plainFormat
    ⟨Table.Keyed.empty, []⟩ nofun rfl plainHistory (plainBinding 1) 3 10
    (List.replicate 20 .success) plainPayload (plainBinding 2) (by decide +kernel)
  obtain ⟨t, ht, hle⟩ := hnewest (plainHistory.take 1) [] (plainBinding 2) plainPayload
    (.mark ⟨"", ""⟩) (List.replicate 20 .success) rfl rfl (by decide +kernel)
  obtain rfl : t = 2 := by
    have htwo : (plainBinding 2).issuance plainFormat = some 2 := by decide +kernel
    exact Option.some.inj (ht.symm.trans htwo)
  exact ⟨issued, hissued, hle⟩

end Rollback

end Hikyo.Compose
