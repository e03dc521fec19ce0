import CommitLog.Proofs.Partition.Holds

/-!
# Appending keeps file and index together

An attempt that becomes a commit is written behind the frames of the file and recorded behind the
locations of the index, and the two are at the same place because file and index agreed before. An
attempt that does not, for whatever reason, leaves both alone; so does one that finds no room.
-/

namespace CommitLog.Partition

open CommitLog.Disk (Place Keeps Edits maxFileLength)

variable {p : Partition} {disk : Disk} {place : Place} {frames : List Frame} {number : Nat}
  {bytes : Bytes} {env : Env}

/-! ## Writing -/

theorem write_of_room (hdisk : disk.Reliable) (hnumber : number < disk.contents.size)
    (hroom : (disk.content number).length + bytes.length ≤ maxFileLength) (durable : Bool) :
    ∃ after, write disk (.file number) durable bytes = (.ok (), after) ∧
      Edits disk after number (disk.content number ++ bytes) := by
  obtain ⟨written, hwrite, hedits⟩ := Disk.append_of_room hdisk hnumber hroom
  unfold write
  rw [hwrite]
  cases durable with
  | false => exact ⟨written, rfl, hedits⟩
  | true =>
    obtain ⟨synced, hsync, hsynced⟩ := Disk.sync_of_reliable hedits.reliable number
    rw [hedits.content] at hsynced
    exact ⟨synced, hsync, hedits.trans hsynced⟩

theorem write_of_no_room (hdisk : disk.Reliable)
    (hroom : maxFileLength < (disk.content number).length + bytes.length) (durable : Bool) :
    ∃ after, write disk (.file number) durable bytes = (.error .fileTooLarge, after) ∧
      Edits disk after number (disk.content number) := by
  obtain ⟨after, hwrite, hedits⟩ := Disk.append_of_no_room hdisk hroom
  exact ⟨after, by rw [write, hwrite], hedits⟩

/-- What an open partition is written to is the file at its place. -/
theorem Holds.content (h : p.Holds disk place frames) (hhandle : p.handle = some (.file number)) :
    disk.entryAt? place = some (.file number) ∧ disk.content number = encodeAll frames := by
  obtain ⟨_, hsame, hentry⟩ := h.handle _ hhandle
  obtain rfl := Disk.Handle.file.inj hsame
  exact ⟨hentry, h.stores.content hentry⟩

/-- A frame that is recorded where the file ends. -/
theorem holds_record (h : p.Holds disk place frames) {after : Disk} (frame : Frame)
    (hkeeps : after.Names p.path place) (hentry : after.entryAt? place = some (.file number))
    (hcontent : after.content number = encodeAll (frames ++ [frame]))
    (hhandle : p.handle = some (.file number)) :
    (p.record ⟨p.tailOffset, p.tailBytes, frame.encode.length, frame.entries.length⟩).Holds after
      place (frames ++ [frame]) where
  names := hkeeps
  short := h.short
  stores := Or.inl ⟨number, hentry, hcontent⟩
  index := by
    rw [locations_append, record, h.index, h.tailOffset, h.tailBytes]
    rfl
  tailOffset := by
    simp only [record, Location.stop, h.tailOffset, entryCount_append, entryCount_cons,
      entryCount_nil, Nat.add_zero]
  tailBytes := by
    simp only [record, Location.endPos, h.tailBytes, encodeAll_append, encodeAll_cons,
      encodeAll_nil, List.append_nil, List.length_append]
  handle handle hsome := by
    obtain rfl := Option.some.inj (hhandle.symm.trans hsome)
    exact ⟨number, rfl, hentry⟩

/-! ## Appending -/

/-- What appending an attempt comes to. -/
inductive Appended (place : Place) (frames : List Frame) (p : Partition) (attempt : RawAttempt)
    (env : Env) : Except LogError RawOutcome → Partition → Env → Prop where
  /-- The attempt has become a commit, in the file and in the index. -/
  | committed {after : Partition} {later : Env} (expected : attempt.expected = p.tail)
      (number : after.number = p.number) (path : after.path = p.path)
      (keeps : Keeps env.disk later.disk (· ≠ place))
      (now : later.now = env.now)
      (holds : after.Holds later.disk place
        (frames ++ [(commitOf attempt env.ids.next.1 env.now).frame])) :
      Appended place frames p attempt env
        (.ok (.committed (commitOf attempt env.ids.next.1 env.now))) after later
  /-- There is no commit, and file and index are as before. -/
  | refused {result : Except LogError RawOutcome} {later : Env}
      (noCommit : result.toOption.bind Outcome.commit? = none)
      (keeps : Keeps env.disk later.disk (· ≠ place)) (now : later.now = env.now)
      (holds : p.Holds later.disk place frames) :
      Appended place frames p attempt env result p later

/-- Whether a frame behind the frames of a file makes it no longer than a file can be. -/
def HasRoom (frames : List Frame) (attempt : RawAttempt) (env : Env) : Prop :=
  (encodeAll frames).length + (frameOf attempt env.ids.next.1 env.now).encode.length
    ≤ maxFileLength

section Cases

variable (h : p.Holds env.disk place frames) (hsound : env.disk.Sound)
  (hreliable : env.disk.Reliable) (durable : Bool) (attempt : RawAttempt)

include h hsound hreliable

/-- An attempt that expects the tail and finds room is committed. -/
theorem append_of_room (hexpected : attempt.expected = p.tail)
    (hhandle : p.handle = some (.file number)) (hroom : HasRoom frames attempt env) :
    ∃ after later, p.append durable attempt env
        = (.ok (.committed (commitOf attempt env.ids.next.1 env.now)), after, later) ∧
      after.number = p.number ∧ after.path = p.path ∧
      Keeps env.disk later.disk (· ≠ place) ∧ later.now = env.now ∧
      after.Holds later.disk place
        (frames ++ [(commitOf attempt env.ids.next.1 env.now).frame]) := by
  obtain ⟨hentry, hcontent⟩ := h.content hhandle
  have hlength : (env.disk.content number).length
      + (frameOf attempt env.ids.next.1 env.now).encode.length ≤ maxFileLength := by
    rw [hcontent]
    exact hroom
  obtain ⟨after, hwrite, hedits⟩ :=
    write_of_room hreliable (hsound.file_lt place number hentry) hlength durable
  have hkeeps := hedits.keeps hsound (by rw [List.length_append]; exact hlength) hentry
  unfold append
  rw [if_neg (fun hne => hne hexpected), hhandle]
  simp only [hwrite]
  refine ⟨_, _, rfl, rfl, rfl, hkeeps, rfl, ?_⟩
  refine holds_record h _ (hkeeps.names hsound h.names) ?_ ?_ hhandle
  · rw [hedits.entryAt?, hentry]
  · rw [hedits.content, hcontent, encodeAll_append, encodeAll_cons, encodeAll_nil, List.append_nil]

/-- An attempt that finds no room leaves the file as it was. -/
theorem append_of_no_room (hexpected : attempt.expected = p.tail)
    (hhandle : p.handle = some (.file number)) (hroom : ¬ HasRoom frames attempt env) :
    ∃ later, p.append durable attempt env
        = (.error (.io .fileTooLarge p.path.display), p, later) ∧
      Keeps env.disk later.disk (· ≠ place) ∧ later.now = env.now ∧
      p.Holds later.disk place frames := by
  obtain ⟨hentry, hcontent⟩ := h.content hhandle
  have hlength : maxFileLength < (env.disk.content number).length
      + (frameOf attempt env.ids.next.1 env.now).encode.length := by
    rw [hcontent]
    exact Nat.lt_of_not_le hroom
  obtain ⟨written, hwrite, hwritten⟩ := write_of_no_room hreliable hlength durable
  have hsize : number < written.contents.size := by
    rw [hwritten.size]
    exact hsound.file_lt place number hentry
  have hend : p.tailBytes ≤ (written.content number).length := by
    have heq : p.tailBytes = (written.content number).length := by
      rw [hwritten.content, hcontent, h.tailBytes]
    exact Nat.le_of_eq heq
  obtain ⟨cut, hcut, hedits⟩ := Disk.setLength_of_reliable hwritten.reliable hsize hend
  rw [hwritten.content, hcontent, h.tailBytes, List.take_length] at hedits
  have hboth := hwritten.trans hedits
  have hkeeps := hboth.keeps hsound (h.stores.length_le hsound) hentry
  unfold append
  rw [if_neg (fun hne => hne hexpected), hhandle]
  simp only [hwrite, hcut]
  refine ⟨_, rfl, hkeeps, rfl, ?_⟩
  refine ⟨hkeeps.names hsound h.names, h.short, ?_, h.index, h.tailOffset, h.tailBytes, ?_⟩
  · exact Or.inl ⟨number, by rw [hboth.entryAt?, hentry], hboth.content⟩
  · intro handle hsome
    obtain rfl := Option.some.inj (hhandle.symm.trans hsome)
    exact ⟨number, rfl, by rw [hboth.entryAt?, hentry]⟩

/-- Whatever becomes of an attempt, file and index tell of the same frames afterwards. -/
theorem append_of_holds {result : Except LogError RawOutcome} {after : Partition} {later : Env}
    (hrun : p.append durable attempt env = (result, after, later)) :
    Appended place frames p attempt env result after later := by
  have hrefl : Keeps env.disk env.disk (· ≠ place) := Keeps.refl hsound hreliable _
  by_cases hexpected : attempt.expected = p.tail
  · cases hhandle : p.handle with
    | none =>
      unfold append at hrun
      rw [if_neg (fun hne => hne hexpected), hhandle] at hrun
      obtain ⟨rfl, rfl, rfl⟩ := hrun
      exact .refused rfl hrefl rfl h
    | some handle =>
      obtain ⟨number, rfl, -⟩ := h.handle handle hhandle
      by_cases hroom : HasRoom frames attempt env
      · obtain ⟨_, _, happend, hnumber, hpath, hkeeps, hnow, hholds⟩ :=
          append_of_room h hsound hreliable durable attempt hexpected hhandle hroom
        rw [happend] at hrun
        obtain ⟨rfl, rfl, rfl⟩ := hrun
        exact .committed hexpected hnumber hpath hkeeps hnow hholds
      · obtain ⟨_, happend, hkeeps, hnow, hholds⟩ :=
          append_of_no_room h hsound hreliable durable attempt hexpected hhandle hroom
        rw [happend] at hrun
        obtain ⟨rfl, rfl, rfl⟩ := hrun
        exact .refused rfl hkeeps hnow hholds
  · unfold append at hrun
    rw [if_pos hexpected] at hrun
    obtain ⟨rfl, rfl, rfl⟩ := hrun
    exact .refused rfl hrefl rfl h

end Cases

end CommitLog.Partition
