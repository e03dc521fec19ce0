import CommitLog.Proofs.Survey.Machine
import CommitLog.Proofs.Topic.CrashRecovery

/-!
# What there is to see beside a writer

While a frame is on its way, the files are those of a settled topic, but for a front of that frame
behind the frames of one file. Every step keeps this (`Kept.step`). So a scan finds what is recorded,
and with it the frame on its way if all of it has landed; and the file is torn for it while only a
part of the frame has (`Kept.scan`).
-/

namespace CommitLog.Survey

open CommitLog.Disk (Keeps maxFileLength)
open CommitLog.Frame (IsCommit)
open CommitLog.Partition (encodeAll entryCount)
open CommitLog.Topic (Folder Holds filePlace partitionNumbers)

variable {config : Config} {folder : Folder} {scene next : Scene} {settled disk after : Disk}
  {frames : UInt32 → List Frame} {topic : Topic} {writing : Writing} {p : Partition}

/-! ## Frames on their way -/

/-- A front of the frame stands behind the frames of its file, and nothing else has changed. -/
structure Writing.Fits (writing : Writing) (config : Config) (folder : Folder) (topic : Topic)
    (frames : UInt32 → List Frame) (settled disk : Disk) : Prop where
  lt : writing.number < config.partitions
  isCommit : IsCommit topic.maxEntryBytes writing.frame
  landed_le : writing.landed ≤ writing.frame.encode.length
  keeps : Keeps settled disk (· ≠ filePlace folder.directory writing.number)
  handle : ∀ p, topic.partitions[writing.number.toNat]? = some p → p.handle = some writing.handle
  file : ∃ file, writing.handle = .file file ∧
    disk.entryAt? (filePlace folder.directory writing.number) = some (.file file) ∧
    disk.content file
      = encodeAll (frames writing.number) ++ writing.frame.encode.take writing.landed

/-- Files and indexes tell of the same frames, but for a frame that is on its way. -/
structure Kept (config : Config) (folder : Folder) (scene : Scene) (settled : Disk)
    (frames : UInt32 → List Frame) : Prop where
  sound : settled.Sound
  reliable : settled.Reliable
  limit : scene.topic.maxEntryBytes ≤ Frame.maxFieldLength
  isCommit : ∀ number, ∀ frame ∈ frames number, IsCommit scene.topic.maxEntryBytes frame
  holds : scene.topic.Holds settled folder (partitionNumbers config) frames
  rests : scene.writing = none → scene.env.disk = settled
  writes : ∀ writing, scene.writing = some writing →
    writing.Fits config folder scene.topic frames settled scene.env.disk

/-! ## Steps of the writer -/

namespace Writing

theorem landed_of_rest (hle : writing.landed ≤ writing.frame.encode.length)
    (hrest : writing.rest = []) : writing.landed = writing.frame.encode.length :=
  Nat.le_antisymm hle (List.drop_eq_nil_iff.1 hrest)

namespace Fits

variable (h : writing.Fits config folder topic frames settled disk)

include h

/-- Some more bytes of the frame land. -/
theorem land {count : Nat} (hcount : count ≤ writing.rest.length)
    (hrun : disk.append writing.handle (writing.rest.take count) = (.ok (), after)) :
    (writing.land count).Fits config folder topic frames settled after := by
  obtain ⟨file, hhandle, hentry, hcontent⟩ := h.file
  rw [hhandle] at hrun
  have hsound := h.keeps.sound
  have hlt := hsound.file_lt _ _ hentry
  by_cases hroom : (disk.content file).length + (writing.rest.take count).length ≤ maxFileLength
  · obtain ⟨written, happend, hedits⟩ := Disk.append_of_room h.keeps.reliable hlt hroom
    rw [hrun] at happend
    obtain ⟨-, rfl⟩ := Prod.mk.inj happend
    have hkeeps := hedits.keeps hsound (by rw [List.length_append]; exact hroom) hentry
    refine ⟨h.lt, h.isCommit, ?_, h.keeps.trans hkeeps, h.handle, file, hhandle, ?_, ?_⟩
    · have hrest : writing.rest.length = writing.frame.encode.length - writing.landed :=
        List.length_drop
      have hle := h.landed_le
      simp only [Writing.land]
      omega
    · rw [← hentry]
      exact hedits.entryAt? _
    · rw [hedits.content, hcontent, List.append_assoc, Writing.land, Writing.rest, List.take_add]
  · obtain ⟨_, happend, -⟩ := Disk.append_of_no_room h.keeps.reliable (Nat.lt_of_not_le hroom)
    rw [hrun] at happend
    cases (Prod.mk.inj happend).1

/-- The frame is forced to stable storage. -/
theorem force (hrun : disk.sync writing.handle = (.ok (), after)) :
    writing.force.Fits config folder topic frames settled after := by
  obtain ⟨file, hhandle, hentry, hcontent⟩ := h.file
  rw [hhandle] at hrun
  have hsound := h.keeps.sound
  obtain ⟨synced, hsync, hedits⟩ := Disk.sync_of_reliable h.keeps.reliable file
  rw [hrun] at hsync
  obtain ⟨-, rfl⟩ := Prod.mk.inj hsync
  have hkeeps := hedits.keeps hsound (hsound.length_le file) hentry
  refine ⟨h.lt, h.isCommit, h.landed_le, h.keeps.trans hkeeps, h.handle, file, hhandle, ?_, ?_⟩
  · rw [← hentry]
    exact hedits.entryAt? _
  · rw [hedits.content, hcontent]
    rfl

end Fits

end Writing

namespace Kept

variable (h : Kept config folder scene settled frames)

include h

theorem partition_of_ok {number : UInt32} (hp : scene.topic.partition number = .ok p) :
    scene.topic.partitions[number.toNat]? = some p ∧ p.number = number ∧
      number < config.partitions := by
  unfold Topic.partition at hp
  split at hp
  next found hfound =>
    obtain rfl := Except.ok.inj hp
    exact ⟨hfound, h.holds.number_of_getElem? hfound⟩
  next => cases hp

/-- An attempt has become a frame, and nothing of it has landed. -/
theorem begin {attempt : RawAttempt} {handle : Disk.Handle} (hidle : scene.writing = none)
    (hp : scene.topic.partition attempt.expected.partition = .ok p)
    (hrefusal : scene.topic.refusal? attempt = none) (hhandle : p.handle = some handle)
    (now : UInt64) : Kept config folder (scene.begin attempt now handle) settled frames := by
  obtain ⟨hget, hnumber, hlt⟩ := h.partition_of_ok hp
  have hholds := h.holds.partition p (List.mem_of_getElem? hget)
  rw [hnumber] at hholds
  obtain ⟨file, hfile, hentry⟩ := hholds.handle handle hhandle
  have hdisk := h.rests hidle
  refine ⟨h.sound, h.reliable, h.limit, h.isCommit, h.holds, nofun, fun writing hwriting => ?_⟩
  obtain rfl := Option.some.inj hwriting
  refine ⟨hlt, Topic.isCommit_of_refusal? hrefusal h.limit _ _, Nat.zero_le _, ?_, ?_, file, hfile,
    ?_, ?_⟩
  · show Keeps settled scene.env.disk _
    rw [hdisk]
    exact Keeps.refl h.sound h.reliable _
  · intro q hq
    rw [show q = p from Option.some.inj (hq.symm.trans hget), hhandle]
  · show scene.env.disk.entryAt? _ = _
    rw [hdisk]
    exact hentry
  · show scene.env.disk.content file = _
    rw [hdisk, hholds.stores.content hentry, List.take_zero, List.append_nil]

/-- The frame has come further. -/
theorem write {written : Writing}
    (hfits : written.Fits config folder scene.topic frames settled after) :
    Kept config folder (scene.write after written) settled frames where
  sound := h.sound
  reliable := h.reliable
  limit := h.limit
  isCommit := h.isCommit
  holds := h.holds
  rests := nofun
  writes writing hwriting := by
    obtain rfl := Option.some.inj hwriting
    exact hfits

/-- The frame has landed and is recorded. -/
theorem record (hunderway : scene.writing = some writing) (hwhole : writing.rest = [])
    (hp : scene.topic.partition writing.number = .ok p) :
    Kept config folder (scene.record writing p) scene.env.disk fun number =>
      if number = writing.number then frames number ++ [writing.frame] else frames number := by
  obtain ⟨hget, hnumber, hlt⟩ := h.partition_of_ok hp
  have hfits := h.writes writing hunderway
  have hmem := List.mem_of_getElem? hget
  have hholds := h.holds.partition p hmem
  have hpath := h.holds.path_eq p hmem
  rw [hnumber] at hholds hpath
  obtain ⟨file, hfile, hentry, hcontent⟩ := hfits.file
  have hhandle := hfits.handle p hget
  rw [hfile] at hhandle
  have hall : scene.env.disk.content file = encodeAll (frames writing.number ++ [writing.frame]) := by
    rw [hcontent, Writing.landed_of_rest hfits.landed_le hwhole, List.take_length,
      Partition.encodeAll_append, Partition.encodeAll_cons, Partition.encodeAll_nil,
      List.append_nil]
  have hrecorded := Partition.holds_record hholds writing.frame
    (hfits.keeps.names h.sound hholds.names) hentry hall hhandle
  refine ⟨hfits.keeps.sound, hfits.keeps.reliable, h.limit, ?_, ?_, fun _ => rfl, nofun⟩
  · intro number frame hframe
    split at hframe
    next hsame =>
      rcases List.mem_append.1 hframe with hframe | hframe
      · exact h.isCommit number frame hframe
      · rw [List.mem_singleton.1 hframe]
        exact hfits.isCommit
    next => exact h.isCommit number frame hframe
  · refine (h.holds.put h.sound hfits.keeps hlt ?_ ?_ hrecorded).congr fun number _ => ?_
    · exact hnumber
    · exact hpath
    · split
      next hsame => rw [hsame]
      next => rfl

/-- The survey leaves alone what it looks at. -/
theorem survey : Kept config folder scene.survey settled frames :=
  ⟨h.sound, h.reliable, h.limit, h.isCommit, h.holds, h.rests, h.writes⟩

/-- **Every step keeps files and indexes together**, but for the frame on its way. -/
theorem step (hstep : Step scene next) : ∃ settled later, Kept config folder next settled later ∧
    ∀ number, frames number <+: later number := by
  cases hstep with
  | begins hidle hp hrefusal _ hhandle =>
    exact ⟨_, _, h.begin hidle hp hrefusal hhandle _, fun _ => List.prefix_rfl⟩
  | lands hunderway hcount hrun =>
    exact ⟨_, _, h.write ((h.writes _ hunderway).land hcount hrun), fun _ => List.prefix_rfl⟩
  | syncs hunderway _ hrun =>
    exact ⟨_, _, h.write ((h.writes _ hunderway).force hrun), fun _ => List.prefix_rfl⟩
  | records hunderway hwhole _ hp =>
    refine ⟨_, _, h.record hunderway hwhole hp, fun number => ?_⟩
    show _ <+: if _ then _ else _
    split
    · exact List.prefix_append ..
    · exact List.prefix_rfl
  | surveys => exact ⟨_, _, h.survey, fun _ => List.prefix_rfl⟩

/-! ## Scans -/

/-- A scan of a partition that no frame is on its way to. -/
theorem scan_of_settled (hp : p ∈ scene.topic.partitions) (hlook : (scene.look p).writing = none) :
    Partition.scanFile scene.env.disk p.path scene.topic.maxEntryBytes scene.topic.maxMapBytes
      = .ok ⟨Partition.locations (frames p.number), (encodeAll (frames p.number)).length,
          entryCount (frames p.number), none⟩ ∧
      (encodeAll (frames p.number)).length ≤ maxFileLength := by
  have hholds := h.holds.partition p hp
  have hthere : p.Holds scene.env.disk (filePlace folder.directory p.number) (frames p.number) := by
    cases hwriting : scene.writing with
    | none =>
      rw [h.rests hwriting]
      exact hholds
    | some writing =>
      have hother : writing.number ≠ p.number := by
        intro hsame
        simp [Scene.look, hwriting, hsame] at hlook
      refine hholds.keeps h.sound (h.writes writing hwriting).keeps fun hsame => hother ?_
      exact (Topic.filePlace_injective hsame).symm
  exact ⟨Partition.scanFile_of_holds hthere (h.isCommit p.number) _,
    hholds.stores.length_le h.sound⟩

/-- A scan of the partition that a frame is on its way to. -/
theorem scan_of_writing (hp : p ∈ scene.topic.partitions)
    (hlook : (scene.look p).writing = some writing) :
    ∃ scan, Partition.scanFile scene.env.disk p.path scene.topic.maxEntryBytes
        scene.topic.maxMapBytes = .ok scan ∧
      (scan.torn.isSome ↔ 0 < writing.landed ∧ writing.rest ≠ []) ∧
      scan.entries = entryCount (frames p.number)
        + (if writing.rest = [] then writing.frame.entries.length else 0) ∧
      scan.entries ≤ maxFileLength := by
  obtain ⟨hwriting, hnumber⟩ : scene.writing = some writing ∧ writing.number = p.number := by
    have hboth := Option.filter_eq_some_iff.1 hlook
    exact ⟨hboth.1, by simpa using hboth.2⟩
  have hfits := h.writes writing hwriting
  have hholds := h.holds.partition p hp
  obtain ⟨file, -, hentry, hcontent⟩ := hfits.file
  rw [hnumber] at hentry hcontent
  have hlength := hfits.keeps.sound.length_le file
  have hread := Disk.read_of_file (hfits.keeps.names h.sound hholds.names) hholds.short hentry
  by_cases hwhole : writing.rest = []
  · have hall : ∀ frame ∈ frames p.number ++ [writing.frame],
        IsCommit scene.topic.maxEntryBytes frame := by
      intro frame hframe
      rcases List.mem_append.1 hframe with hframe | hframe
      · exact h.isCommit p.number frame hframe
      · rw [List.mem_singleton.1 hframe]
        exact hfits.isCommit
    have hdata : scene.env.disk.content file = encodeAll (frames p.number ++ [writing.frame]) := by
      rw [hcontent, Writing.landed_of_rest hfits.landed_le hwhole, List.take_length,
        Partition.encodeAll_append, Partition.encodeAll_cons, Partition.encodeAll_nil,
        List.append_nil]
    have hentries := Partition.entryCount_le_length (frames p.number ++ [writing.frame])
    rw [hdata] at hread hlength
    refine ⟨_, Partition.scanFile_of_scan hread (Partition.scan_encodeAll hall _), ?_, ?_, ?_⟩
    · simp [hwhole]
    · rw [if_pos hwhole, Partition.entryCount_append, Partition.entryCount_cons,
        Partition.entryCount_nil, Nat.add_zero]
    · exact Nat.le_trans hentries hlength
  · have hlt : writing.landed < writing.frame.encode.length := by
      by_contra hge
      exact hwhole (List.drop_eq_nil_iff.2 (Nat.le_of_not_lt hge))
    have hleft := Partition.Leftover.cutShort hfits.isCommit hlt
    obtain ⟨torn, hscan, htorn⟩ := Partition.scan_of_leftover (h.isCommit p.number) hleft
      scene.topic.maxMapBytes
    rw [hcontent] at hread hlength
    have hentries := Partition.entryCount_le_length (frames p.number)
    rw [List.length_append] at hlength
    refine ⟨_, Partition.scanFile_of_scan hread hscan, ?_, ?_, ?_⟩
    · rw [htorn, ne_eq, List.take_eq_nil_iff, not_or]
      have hne := Frame.length_encode_pos writing.frame
      rw [List.length_pos_iff] at hne
      simp [hwhole, hne, Nat.pos_iff_ne_zero]
    · rw [if_neg hwhole, Nat.add_zero]
    · exact Nat.le_trans hentries (Nat.le_trans (Nat.le_add_right ..) hlength)

/-- **A scan finds what is recorded, and a frame on its way if all of it has landed.** It takes the
file for torn just while only a part has. -/
theorem scan (hp : p ∈ scene.topic.partitions) :
    ∃ scan, Partition.scanFile scene.env.disk p.path scene.topic.maxEntryBytes
        scene.topic.maxMapBytes = .ok scan ∧
      (scan.torn.isSome ↔ (scene.look p).IsTorn) ∧ scan.entries = (scene.look p).found ∧
      scan.entries ≤ maxFileLength := by
  have hrecorded : (scene.look p).recorded = entryCount (frames p.number) :=
    (h.holds.partition p hp).tailOffset
  cases hlook : (scene.look p).writing with
  | none =>
    obtain ⟨hscan, hlength⟩ := h.scan_of_settled hp hlook
    refine ⟨_, hscan, by simp [Look.IsTorn, hlook], ?_, ?_⟩
    · rw [Look.found, hlook, hrecorded, Nat.add_zero]
    · exact Nat.le_trans (Partition.entryCount_le_length _) hlength
  | some writing =>
    obtain ⟨scan, hscan, htorn, hentries, hle⟩ := h.scan_of_writing hp hlook
    refine ⟨scan, hscan, ?_, ?_, hle⟩
    · rw [htorn]
      simp [Look.IsTorn, hlook]
    · rw [hentries, Look.found, hlook, hrecorded]

end Kept

end CommitLog.Survey
