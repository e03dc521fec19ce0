import CommitLog.Partition
import CommitLog.Proofs.Partition.Holds
import CommitLog.Proofs.Partition.Recovery

/-!
# Scans and the plain walk

`Walks` says what a scan is to find, without windows and without a program: frame after frame is
measured over everything that is left, and the first place that is no frame with entries decides.
The end of the data ends the walk well, a frame that is cut short or a rest of zeros makes it torn,
and everything else is damage.

`plainScanFrom` is that walk as a function, so every data has one verdict (`walks_iff`), and
`scan_is_the_plain_walk` carries it over to the scan through windows of every length, the length
zero included. The verdict is the scan as a whole: frames and their places, the bytes and entries of
the whole frames, what is said about a torn end; or the place and the damage.

What a walk that ends well has passed are whole frames, with something behind them or nothing
(`exists_frames_of_scan`). So a file that is cut to the bytes that its scan found valid holds these
frames and nothing else, and another scan finds them again with nothing torn
(`scan_take_validBytes`): what stays of the file has no other reading.
-/

namespace CommitLog.Partition

open CommitLog.Frame (IsCommit Span)

variable {maxField maxWindow : Nat} {data : Bytes} {found : Scan}

/-- The walk over `rest`, which stands at `pos` behind frames of `entries` entries, ends with this
verdict. -/
inductive Walks (maxField : Nat) : Bytes → Nat → Nat → Except (Nat × Damage) Scan → Prop
  | atEnd (pos entries : Nat) : Walks maxField [] pos entries (.ok ⟨[], pos, entries, none⟩)
  | frame {rest : Bytes} {pos entries : Nat} {span : Span} {verdict : Except (Nat × Damage) Scan}
      (hmeasure : Frame.measure maxField rest = .ok span) (hentries : span.entries ≠ 0)
      (hlater : Walks maxField (rest.drop span.length) (pos + span.length)
        (entries + span.entries) verdict) :
      Walks maxField rest pos entries
        (verdict.map (Scan.behind [⟨entries, pos, span.length, span.entries⟩]))
  | noEntries {rest : Bytes} {span : Span} (pos entries : Nat)
      (hmeasure : Frame.measure maxField rest = .ok span) (hentries : span.entries = 0) :
      Walks maxField rest pos entries (.error (pos, .noEntries))
  | cutShort {rest : Bytes} {available : Nat} (pos entries : Nat) (hrest : rest ≠ [])
      (hmeasure : Frame.measure maxField rest = .error (.incomplete available)) :
      Walks maxField rest pos entries
        (.ok ⟨[], pos, entries, some (.cutShort pos available)⟩)
  | zeros {rest : Bytes} {error : Frame.Error} (pos entries : Nat)
      (hmeasure : Frame.measure maxField rest = .error error)
      (herror : ∀ available, error ≠ .incomplete available) (hzero : ∀ b ∈ rest, b = 0) :
      Walks maxField rest pos entries (.ok ⟨[], pos, entries, some (.zeros rest.length pos)⟩)
  | damaged {rest : Bytes} {error : Frame.Error} (pos entries : Nat)
      (hmeasure : Frame.measure maxField rest = .error error)
      (herror : ∀ available, error ≠ .incomplete available) (hzero : ¬∀ b ∈ rest, b = 0) :
      Walks maxField rest pos entries (.error (pos, .frame error))

/-! ## The walk as a function -/

theorem allZero_iff {data : Bytes} : allZero data = true ↔ ∀ b ∈ data, b = 0 := by
  simp [allZero]

theorem plainScanFrom_nil (pos entries : Nat) :
    plainScanFrom maxField [] pos entries = .ok ⟨[], pos, entries, none⟩ := by
  rw [plainScanFrom, measureAll_nil]
  rfl

theorem plainScanFrom_of_frame {rest : Bytes} {span : Span}
    (hmeasure : Frame.measure maxField rest = .ok span) (hentries : span.entries ≠ 0)
    (pos entries : Nat) :
    plainScanFrom maxField rest pos entries
      = (plainScanFrom maxField (rest.drop span.length) (pos + span.length)
          (entries + span.entries)).map
          (Scan.behind [⟨entries, pos, span.length, span.entries⟩]) := by
  have hall := measureAll_of_ok hmeasure
  rw [if_neg hentries] at hall
  have hlength : total ([span].map Span.length) = span.length := by simp
  have hcount : total ([span].map Span.entries) = span.entries := by simp
  rw [← hlength] at hall
  rw [plainScanFrom_of_behind hall, hlength, hcount]
  rfl

theorem plainScanFrom_of_noEntries {rest : Bytes} {span : Span}
    (hmeasure : Frame.measure maxField rest = .ok span) (hentries : span.entries = 0)
    (pos entries : Nat) :
    plainScanFrom maxField rest pos entries = .error (pos, .noEntries) := by
  have hall := measureAll_of_ok hmeasure
  rw [if_pos hentries] at hall
  rw [plainScanFrom, hall]
  rfl

theorem ne_nil_of_measure {rest : Bytes} {error : Frame.Error}
    (hmeasure : Frame.measure maxField rest = .error error)
    (herror : ∀ available, error ≠ .incomplete available) : rest ≠ [] := by
  rintro rfl
  rw [Frame.measure_of_length_lt (by decide)] at hmeasure
  exact herror _ (Except.error.inj hmeasure).symm

/-- What the relation allows, the function gives. -/
theorem Walks.eq_plainScanFrom {rest : Bytes} {pos entries : Nat}
    {verdict : Except (Nat × Damage) Scan} (h : Walks maxField rest pos entries verdict) :
    plainScanFrom maxField rest pos entries = verdict := by
  induction h with
  | atEnd pos entries => exact plainScanFrom_nil pos entries
  | frame hmeasure hentries hlater ih => rw [plainScanFrom_of_frame hmeasure hentries, ih]
  | noEntries pos entries hmeasure hentries =>
    exact plainScanFrom_of_noEntries hmeasure hentries pos entries
  | cutShort pos entries hrest hmeasure =>
    rw [plainScanFrom_of_error hrest hmeasure]
    rfl
  | zeros pos entries hmeasure herror hzero =>
    have hrest := ne_nil_of_measure hmeasure herror
    rw [plainScanFrom_of_error hrest hmeasure, judge_of_ne_incomplete herror,
      if_pos (allZero_iff.2 hzero)]
  | damaged pos entries hmeasure herror hzero =>
    have hrest := ne_nil_of_measure hmeasure herror
    rw [plainScanFrom_of_error hrest hmeasure, judge_of_ne_incomplete herror,
      if_neg (fun hall => hzero (allZero_iff.1 hall))]

/-- Every data has a verdict. -/
theorem exists_walks (maxField : Nat) (rest : Bytes) (pos entries : Nat) :
    ∃ verdict, Walks maxField rest pos entries verdict := by
  -- every frame takes some room, so there is less left behind it
  induction hlength : rest.length using Nat.strongRecOn generalizing rest pos entries with
  | ind length ih =>
    by_cases hrest : rest = []
    · subst hrest
      exact ⟨_, .atEnd pos entries⟩
    cases hmeasure : Frame.measure maxField rest with
    | ok span =>
      by_cases hentries : span.entries = 0
      · exact ⟨_, .noEntries pos entries hmeasure hentries⟩
      have hshorter : (rest.drop span.length).length < length := by
        have hpos := Frame.length_pos_of_measure hmeasure
        have hne := List.length_pos_iff.2 hrest
        rw [List.length_drop]
        omega
      obtain ⟨verdict, hlater⟩ := ih _ hshorter (rest.drop span.length) (pos + span.length)
        (entries + span.entries) rfl
      exact ⟨_, .frame hmeasure hentries hlater⟩
    | error error =>
      by_cases herror : ∃ available, error = .incomplete available
      · obtain ⟨available, rfl⟩ := herror
        exact ⟨_, .cutShort pos entries hrest hmeasure⟩
      have hother : ∀ available, error ≠ .incomplete available := not_exists.1 herror
      by_cases hzero : ∀ b ∈ rest, b = 0
      · exact ⟨_, .zeros pos entries hmeasure hother hzero⟩
      · exact ⟨_, .damaged pos entries hmeasure hother hzero⟩

/-- The verdict of the walk is that of the function, and there is no other. -/
theorem walks_iff {rest : Bytes} {pos entries : Nat} {verdict : Except (Nat × Damage) Scan} :
    Walks maxField rest pos entries verdict
      ↔ verdict = plainScanFrom maxField rest pos entries := by
  refine ⟨fun h => h.eq_plainScanFrom.symm, ?_⟩
  rintro rfl
  obtain ⟨verdict, hverdict⟩ := exists_walks maxField rest pos entries
  rwa [hverdict.eq_plainScanFrom]

/-! ## Scans -/

theorem walks_scan (maxField maxWindow : Nat) (data : Bytes) :
    Walks maxField data 0 0 (scan maxField maxWindow data) := by
  rw [walks_iff, scan_eq_plainScan, plainScan_eq_plainScanFrom]

/-- What the walk over the data of a file gives as the answer about the file. -/
theorem scanFile_of_walks {disk : Disk} {path : Path} {data : Bytes}
    (hread : disk.read path = .ok data) {verdict : Except (Nat × Damage) Scan}
    (hverdict : Walks maxField data 0 0 verdict) (maxWindow : Nat) :
    scanFile disk path maxField maxWindow
      = verdict.mapError fun (pos, damage) => .corrupt path.display pos damage := by
  rw [walks_iff.1 hverdict, ← walks_iff.1 (walks_scan maxField maxWindow data), scanFile, hread]

/-- **A scan is the plain walk, whatever the length of its windows.** For every data there is one
verdict of the walk, scans through windows of every length come to it, and so does every scan of a
file that holds the data. -/
theorem scan_is_the_plain_walk (maxField : Nat) (data : Bytes) :
    ∃ verdict, (∀ other, Walks maxField data 0 0 other ↔ other = verdict) ∧
      (∀ maxWindow, scan maxField maxWindow data = verdict) ∧
      ∀ (disk : Disk) (path : Path), disk.read path = .ok data → ∀ maxWindow,
        scanFile disk path maxField maxWindow
          = verdict.mapError fun (pos, damage) => .corrupt path.display pos damage := by
  refine ⟨plainScanFrom maxField data 0 0, fun other => walks_iff, fun maxWindow => ?_,
    fun disk path hread maxWindow => ?_⟩
  · exact walks_iff.1 (walks_scan maxField maxWindow data)
  · exact scanFile_of_walks hread (walks_iff.2 rfl) maxWindow

/-- A file of two whole frames, with the first bytes of a third behind them, is torn at the third
for every length of the windows. -/
theorem scan_is_the_plain_walk_of_torn_end :
    ∃ (disk : Disk) (path : Path) (frame : Frame),
      disk.read path = .ok (frame.encode ++ (frame.encode ++ frame.encode.take 30)) ∧
        ∀ maxWindow, scanFile disk path 1024 maxWindow
          = .ok ⟨[⟨0, 0, 42, 1⟩, ⟨1, 42, 42, 1⟩], 84, 2, some (.cutShort 84 30)⟩ := by
  let frame : Frame := ⟨⟨1, 2⟩, 0, [107], [[118]]⟩
  let torn : Bytes := frame.encode.take 30
  let disk : Disk :=
    ⟨#[⟨Disk.top, [("log", .file 0)]⟩], #[(frame.encode ++ (frame.encode ++ torn)).toArray], []⟩
  have hfits : frame.Fits 1024 := by
    show ∀ field ∈ [[107], [118]], List.length field ≤ min 1024 Frame.maxFieldLength
    decide
  have hread : disk.read ⟨["log"]⟩ = .ok (frame.encode ++ (frame.encode ++ torn)) := by rfl
  have hcut : Frame.measure 1024 torn = .error (.incomplete 30) :=
    Frame.measure_take_of_lt hfits (by decide)
  have hwalks : Walks 1024 (frame.encode ++ (frame.encode ++ torn)) 0 0 _ :=
    .frame (Frame.measure_encode hfits _) (by decide)
      (.frame (Frame.measure_encode hfits _) (by decide) (.cutShort 84 2 (by decide) hcut))
  obtain ⟨verdict, hverdict, -, hfile⟩ := scan_is_the_plain_walk 1024
    (frame.encode ++ (frame.encode ++ torn))
  obtain rfl := (hverdict _).1 hwalks
  exact ⟨disk, _, frame, hread, hfile _ _ hread⟩

/-! ## Scanning again -/

/-- A walk that ends well has passed whole frames, and torn is what is left behind them. -/
theorem Walks.exists_frames {rest : Bytes} {pos entries : Nat}
    {verdict : Except (Nat × Damage) Scan} (h : Walks maxField rest pos entries verdict) :
    ∀ found, verdict = .ok found → ∃ frames left torn, (∀ frame ∈ frames, IsCommit maxField frame) ∧
      rest = encodeAll frames ++ left ∧ (torn.isSome ↔ left ≠ []) ∧
      found = ⟨locate entries pos (frames.map Frame.span), pos + (encodeAll frames).length,
        entries + entryCount frames, torn⟩ := by
  induction h with
  | atEnd pos entries =>
    rintro _ ⟨⟩
    exact ⟨[], [], none, by simp, rfl, by simp, rfl⟩
  | @frame rest pos entries span verdict hmeasure hentries hlater ih =>
    intro found hfound
    obtain ⟨later, rfl⟩ : ∃ later, verdict = .ok later := by
      cases verdict with
      | error e => simp [Except.map] at hfound
      | ok later => exact ⟨later, rfl⟩
    obtain ⟨frame, behind, hfits, rfl, rfl⟩ := Frame.measure_eq_ok_iff.1 hmeasure
    obtain ⟨frames, left, torn, hframes, hrest, htorn, rfl⟩ := ih later rfl
    have hdrop : (frame.encode ++ behind).drop frame.span.length = behind := List.drop_left' rfl
    rw [hdrop] at hrest
    have hcommit : IsCommit maxField frame :=
      ⟨hfits, fun hempty => hentries (by rw [Frame.span, hempty]; rfl)⟩
    refine ⟨frame :: frames, left, torn, ?_, ?_, htorn, ?_⟩
    · exact List.forall_mem_cons.2 ⟨hcommit, hframes⟩
    · rw [encodeAll_cons, List.append_assoc, ← hrest]
    · obtain rfl := Except.ok.inj hfound
      rw [encodeAll_cons, List.length_append, entryCount_cons, ← Nat.add_assoc, ← Nat.add_assoc]
      rfl
  | noEntries => simp
  | cutShort pos entries hrest hmeasure =>
    rintro _ ⟨⟩
    exact ⟨[], _, _, by simp, rfl, by simpa using hrest, rfl⟩
  | zeros pos entries hmeasure herror hzero =>
    rintro _ ⟨⟩
    exact ⟨[], _, _, by simp, rfl, by simpa using ne_nil_of_measure hmeasure herror, rfl⟩
  | damaged => simp

/-- A scan that succeeds has found whole frames, and torn is what is left behind them. -/
theorem exists_frames_of_scan (h : scan maxField maxWindow data = .ok found) :
    ∃ frames left torn, (∀ frame ∈ frames, IsCommit maxField frame) ∧
      data = encodeAll frames ++ left ∧ (torn.isSome ↔ left ≠ []) ∧
      found = ⟨locations frames, (encodeAll frames).length, entryCount frames, torn⟩ := by
  have hwalks := walks_scan maxField maxWindow data
  rw [h] at hwalks
  obtain ⟨frames, left, torn, hframes, hdata, htorn, hfound⟩ := hwalks.exists_frames found rfl
  rw [Nat.zero_add, Nat.zero_add] at hfound
  exact ⟨frames, left, torn, hframes, hdata, htorn, hfound⟩

theorem scan_nil (maxField maxWindow : Nat) : scan maxField maxWindow [] = .ok .empty :=
  scan_encodeAll (List.forall_mem_nil _) maxWindow

theorem validBytes_le_of_scan (h : scan maxField maxWindow data = .ok found) :
    found.validBytes ≤ data.length := by
  obtain ⟨frames, left, torn, -, rfl, -, rfl⟩ := exists_frames_of_scan h
  rw [List.length_append]
  exact Nat.le_add_right _ _

/-- **What stays of a file that is cut is read as before**, with nothing torn. -/
theorem scan_take_validBytes (h : scan maxField maxWindow data = .ok found) :
    scan maxField maxWindow (data.take found.validBytes) = .ok { found with torn := none } := by
  obtain ⟨frames, left, torn, hframes, rfl, -, rfl⟩ := exists_frames_of_scan h
  rw [List.take_left' rfl, scan_encodeAll hframes]

/-- The scan of a file is that of its bytes, and a file that is missing has nothing in it. -/
theorem scan_of_scanFile {disk : Disk} {path : Path}
    (h : scanFile disk path maxField maxWindow = .ok found) :
    ∃ data, scan maxField maxWindow data = .ok found := by
  unfold scanFile at h
  split at h
  next =>
    obtain rfl := Except.ok.inj h
    exact ⟨[], scan_nil maxField maxWindow⟩
  next => simp at h
  next data _ =>
    refine ⟨data, ?_⟩
    cases hscan : scan maxField maxWindow data with
    | error e => simp [hscan, Except.mapError] at h
    | ok other =>
      rw [hscan] at h
      exact congrArg Except.ok (Except.ok.inj h)

/-- The index of a partition that records what a scan of its file has found. -/
theorem recordAll_of_scanFile {disk : Disk} {scanned : Path}
    (h : scanFile disk scanned maxField maxWindow = .ok found) (number : UInt32) (path : Path) :
    recordAll { number, path } found.frames
      = { number, path, frames := found.frames, tailOffset := found.entries,
          tailBytes := found.validBytes } := by
  obtain ⟨data, hdata⟩ := scan_of_scanFile h
  obtain ⟨frames, left, torn, -, -, -, rfl⟩ := exists_frames_of_scan hdata
  exact recordAll_locations number path frames

end CommitLog.Partition
