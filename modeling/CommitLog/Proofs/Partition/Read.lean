import CommitLog.Partition.Read
import CommitLog.Proofs.Frame.Decode
import CommitLog.Proofs.Partition.Holds

/-!
# Reading gives back what was committed

A read from the start of a frame gives the commits from there on, as many as were asked for, with
their places put back (`read_of_holds`). The windows it goes through make no difference: a window
is a stretch of frames, each of which is found in it at its own place, and one window goes on where
the one before it ends.
-/

namespace CommitLog.Partition

open CommitLog.Disk (Place)
open CommitLog.Frame (IsCommit Span)

variable {p : Partition} {disk : Disk} {place : Place} {maxField : Nat} {front later : List Frame}

/-! ## Rows of locations -/

theorem locate_take (start pos count : Nat) (spans : List Span) :
    (locate start pos spans).take count = locate start pos (spans.take count) := by
  induction spans generalizing start pos count with
  | nil => simp [locate]
  | cons span later ih =>
    cases count with
    | zero => rfl
    | succ count => rw [locate, List.take_succ_cons, ih, List.take_succ_cons, locate]

theorem commitsFrom_take (number : UInt32) (start count : Nat) (frames : List Frame) :
    (commitsFrom number start frames).take count
      = commitsFrom number start (frames.take count) := by
  induction frames generalizing start count with
  | nil => simp [commitsFrom]
  | cons frame later ih =>
    cases count with
    | zero => rfl
    | succ count => rw [commitsFrom, List.take_succ_cons, ih, List.take_succ_cons, commitsFrom]

/-- A row of locations is cut where its frames are. -/
theorem exists_frames_of_locate {start pos : Nat} {frames : List Frame}
    {front later : List Location}
    (h : locate start pos (frames.map Frame.span) = front ++ later) :
    ∃ head rest, frames = head ++ rest ∧ front = locate start pos (head.map Frame.span) ∧
      later = locate (start + entryCount head) (pos + (encodeAll head).length)
        (rest.map Frame.span) := by
  refine ⟨frames.take front.length, frames.drop front.length,
    (List.take_append_drop ..).symm, ?_, ?_⟩
  · rw [List.map_take, ← locate_take, h, List.take_left' rfl]
  · have hsplit : locate start pos (frames.map Frame.span)
        = locate start pos ((frames.take front.length).map Frame.span)
          ++ locate (start + entryCount (frames.take front.length))
            (pos + (encodeAll (frames.take front.length)).length)
            ((frames.drop front.length).map Frame.span) := by
      rw [← total_span_entries, ← total_span_length, ← locate_append, ← List.map_append,
        List.take_append_drop]
    rw [List.map_take, ← locate_take, h, List.take_left' rfl] at hsplit
    exact List.append_cancel_left hsplit

/-- Where frames lie that stand behind others. -/
def locationsBehind (front later : List Frame) : List Location :=
  locate (entryCount front) (encodeAll front).length (later.map Frame.span)

theorem locationsBehind_cons (front : List Frame) (frame : Frame) (later : List Frame) :
    locationsBehind front (frame :: later)
      = ⟨entryCount front, (encodeAll front).length, frame.encode.length, frame.entries.length⟩
        :: locationsBehind (front ++ [frame]) later := by
  simp only [locationsBehind, List.map_cons, locate, Frame.span, encodeAll_append, encodeAll_cons,
    encodeAll_nil, List.append_nil, List.length_append, entryCount_append, entryCount_cons,
    entryCount_nil, Nat.add_zero]

theorem locations_append_behind (front later : List Frame) :
    locations (front ++ later) = locations front ++ locationsBehind front later :=
  locations_append front later

/-! ## Frames of a window -/

/-- A frame that stands in a window at its place is read as its commit. -/
theorem readFrame_of_frame (p : Partition) {frame : Frame} (h : frame.IsCommit maxField)
    (before after : Bytes) (base start : Nat) :
    p.readFrame maxField (before ++ (frame.encode ++ after)) base
        ⟨start, base + before.length, frame.encode.length, frame.entries.length⟩
      = .ok (commitAt p.number start frame) := by
  have hslice : slice? (before ++ (frame.encode ++ after)) base
      ⟨start, base + before.length, frame.encode.length, frame.entries.length⟩
      = some frame.encode := by
    have hrel : base + before.length - base = before.length := Nat.add_sub_cancel_left ..
    simp only [slice?, hrel]
    rw [if_pos (by simp only [List.length_append]; omega), List.drop_left' rfl, List.take_left' rfl]
  have hdecode := Frame.decode_encode_append h.fits []
  rw [List.append_nil] at hdecode
  unfold readFrame
  simp only [hslice, hdecode]
  rw [if_neg (by simp [Frame.span])]
  rfl

theorem mapM_readFrame (p : Partition) (base : Nat) (after : Bytes) :
    ∀ (frames : List Frame) (before : Bytes) (start : Nat),
      (∀ frame ∈ frames, IsCommit maxField frame) →
      (locate start (base + before.length) (frames.map Frame.span)).mapM
          (p.readFrame maxField (before ++ (encodeAll frames ++ after)) base)
        = .ok (commitsFrom p.number start frames) := by
  intro frames
  induction frames with
  | nil => intro _ _ _; rfl
  | cons frame later ih =>
    intro before start h
    have hlater := ih (before ++ frame.encode) (start + frame.entries.length)
      (fun x hx => h x (List.mem_cons_of_mem _ hx))
    rw [List.length_append, ← Nat.add_assoc, List.append_assoc] at hlater
    rw [List.map_cons, locate, List.mapM_cons, encodeAll_cons, List.append_assoc]
    simp only [Frame.span]
    rw [readFrame_of_frame p (h frame List.mem_cons_self), hlater]
    rfl

/-! ## Windows -/

theorem endPos_getLastD (frame : Frame) (frames : List Frame) (start pos : Nat) :
    ((locate (start + frame.entries.length) (pos + frame.encode.length)
        (frames.map Frame.span)).getLastD
        ⟨start, pos, frame.encode.length, frame.entries.length⟩).endPos
      = pos + (encodeAll (frame :: frames)).length := by
  induction frames generalizing frame start pos with
  | nil => simp [locate, Location.endPos]
  | cons next later ih =>
    have hlast := ih next (start + frame.entries.length) (pos + frame.encode.length)
    rw [List.map_cons, locate, List.getLastD_cons]
    simp only [Frame.span]
    rw [hlast, encodeAll_cons frame, List.length_append, Nat.add_assoc]

/-- The first window of a row of frames holds some of them from the front, and the other windows the
rest. -/
theorem exists_window (limit : Nat) (front : List Frame) (frame : Frame) (later : List Frame) :
    ∃ window head rest, frame :: later = head ++ rest ∧
      window.frames = locationsBehind front head ∧
      Window.group limit (locationsBehind front (frame :: later))
        = window :: Window.group limit (locationsBehind (front ++ head) rest) := by
  rw [locationsBehind_cons]
  generalize hfirst : Location.mk _ _ _ _ = first
  generalize hmore : locationsBehind (front ++ [frame]) later = more
  have hsplit : locate (entryCount front) (encodeAll front).length
      ((frame :: later).map Frame.span)
      = (first :: more.takeWhile (Window.admits limit first.pos))
        ++ more.dropWhile (Window.admits limit first.pos) := by
    rw [List.cons_append, List.takeWhile_append_dropWhile, ← hfirst, ← hmore,
      ← locationsBehind_cons]
    rfl
  obtain ⟨head, rest, hall, hhead, hrest⟩ := exists_frames_of_locate hsplit
  refine ⟨⟨first, more.takeWhile (Window.admits limit first.pos)⟩, head, rest, hall, hhead, ?_⟩
  rw [Window.group, hrest, locationsBehind, entryCount_append, encodeAll_append,
    List.length_append]

/-- Where a window of frames begins, and where it ends. -/
theorem bounds_of_window {window : Window} {head : List Frame}
    (h : window.frames = locationsBehind front head) :
    window.pos = (encodeAll front).length ∧ window.endPos = (encodeAll (front ++ head)).length := by
  cases head with
  | nil => simp [Window.frames, locationsBehind, locate] at h
  | cons frame later =>
    obtain ⟨first, more⟩ := window
    rw [locationsBehind, List.map_cons, locate, Window.frames, List.cons.injEq] at h
    obtain ⟨rfl, rfl⟩ := h
    refine ⟨rfl, ?_⟩
    rw [encodeAll_append, List.length_append]
    exact endPos_getLastD frame later (entryCount front) (encodeAll front).length

/-- A window of frames is read as their commits. -/
theorem readWindow_of_frames (p : Partition) (window : Window) {frames : List Frame}
    (h : ∀ frame ∈ frames, IsCommit maxField frame) (before after : Bytes) (start : Nat)
    (hwindow : window.frames = locate start before.length (frames.map Frame.span)) :
    p.readWindow maxField (before ++ (encodeAll frames ++ after)) window
      = .ok (commitsFrom p.number start frames) := by
  cases frames with
  | nil => simp [Window.frames, locate] at hwindow
  | cons frame later =>
    obtain ⟨first, more⟩ := window
    rw [List.map_cons, locate, Window.frames, List.cons.injEq] at hwindow
    obtain ⟨rfl, rfl⟩ := hwindow
    have hend := endPos_getLastD frame later start before.length
    have hstretch : ((before ++ (encodeAll (frame :: later) ++ after)).drop before.length).take
        (before.length + (encodeAll (frame :: later)).length - before.length)
        = encodeAll (frame :: later) := by
      rw [List.drop_left' rfl, Nat.add_sub_cancel_left, List.take_left' rfl]
    have hread := mapM_readFrame p before.length [] (frame :: later) [] start h
    rw [List.nil_append, List.append_nil] at hread
    unfold readWindow
    simp only [Window.endPos, Window.pos, Window.frames, Frame.span, hend, hstretch]
    rw [if_neg (by simp only [List.length_append]; omega)]
    exact hread

/-- **Windows make no difference to a read.** -/
theorem mapM_readWindow (p : Partition) (limit : Nat) (after : Bytes) : ∀ (locs : List Location)
    (frames : List Frame) (before : Bytes) (start : Nat),
    (∀ frame ∈ frames, IsCommit maxField frame) →
    locs = locate start before.length (frames.map Frame.span) →
    ((Window.group limit locs).mapM
        (p.readWindow maxField (before ++ (encodeAll frames ++ after)))).map List.flatten
      = .ok (commitsFrom p.number start frames) := by
  intro locs
  induction locs using Window.group.induct limit with
  | case1 =>
    intro frames before start _ hlocs
    cases frames with
    | nil => simp [Window.group, commitsFrom, Except.map, pure, Except.pure]
    | cons frame later => simp [locate] at hlocs
  | case2 first rest ih =>
    intro frames before start h hlocs
    have hsplit : locate start before.length (frames.map Frame.span)
        = (first :: rest.takeWhile (Window.admits limit first.pos))
          ++ rest.dropWhile (Window.admits limit first.pos) := by
      rw [← hlocs, List.cons_append, List.takeWhile_append_dropWhile]
    -- the first window holds some of the frames from the front, the other windows the rest
    obtain ⟨head, later, rfl, hhead, hlater⟩ := exists_frames_of_locate hsplit
    have hfirst := readWindow_of_frames p ⟨first, rest.takeWhile (Window.admits limit first.pos)⟩
      (fun x hx => h x (List.mem_append_left _ hx)) before (encodeAll later ++ after) start hhead
    rw [← List.length_append] at hlater
    have hmore := ih later (before ++ encodeAll head) (start + entryCount head)
      (fun x hx => h x (List.mem_append_right _ hx)) hlater
    rw [List.append_assoc] at hmore
    rw [Window.group, List.mapM_cons, encodeAll_append, List.append_assoc, hfirst,
      commitsFrom_append]
    cases hgroup : (Window.group limit (rest.dropWhile (Window.admits limit first.pos))).mapM
        (p.readWindow maxField (before ++ (encodeAll head ++ (encodeAll later ++ after)))) with
    | error e => simp [hgroup, Except.map] at hmore
    | ok lists =>
      rw [hgroup] at hmore
      have hflat : lists.flatten = commitsFrom p.number (start + entryCount head) later :=
        Except.ok.inj hmore
      simp only [bind, Except.bind, pure, Except.pure, Except.map, List.flatten_cons, hflat]

/-! ## Reading from a boundary -/

theorem mem_locate {start pos : Nat} {spans : List Span} {loc : Location}
    (h : loc ∈ locate start pos spans) :
    start ≤ loc.start ∧ loc.start + loc.entries ≤ start + total (spans.map Span.entries) ∧
      ∃ span ∈ spans, loc.entries = span.entries := by
  induction spans generalizing start pos with
  | nil => simp [locate] at h
  | cons span later ih =>
    unfold locate at h
    rcases List.mem_cons.1 h with rfl | h
    · refine ⟨Nat.le_refl _, ?_, span, List.mem_cons_self, rfl⟩
      simp only [List.map_cons, total_cons]
      omega
    · obtain ⟨hle, hstop, found, hfound, hentries⟩ := ih h
      refine ⟨by omega, ?_, found, List.mem_cons_of_mem _ hfound, hentries⟩
      simp only [List.map_cons, total_cons]
      omega

/-- Every frame of a row starts at or behind the front of the row, and before its end. -/
theorem start_of_mem_locate {frames : List Frame} (h : ∀ frame ∈ frames, frame.entries ≠ [])
    {start pos : Nat} {loc : Location} (hloc : loc ∈ locate start pos (frames.map Frame.span)) :
    start ≤ loc.start ∧ loc.start < start + entryCount frames := by
  obtain ⟨hle, hstop, span, hspan, hentries⟩ := mem_locate hloc
  obtain ⟨frame, hframe, rfl⟩ := List.mem_map.1 hspan
  have hpos : 0 < loc.entries := by
    rw [hentries]
    exact List.length_pos_iff.2 (h frame hframe)
  rw [total_span_entries] at hstop
  omega

/-- The frames from a start up to the tail, whatever the index has behind the tail. -/
theorem framesFrom_of_between {mid more : List Frame}
    (h : p.frames = locations (front ++ (mid ++ more)))
    (htail : p.tailOffset = entryCount (front ++ mid))
    (hentries : ∀ frame ∈ front ++ mid, frame.entries ≠ []) (count : Nat) :
    p.framesFrom (entryCount front) count = locationsBehind front (mid.take count) := by
  have hfront : (locations front).filter (fun loc =>
      decide (entryCount front ≤ loc.start) && decide (loc.start < p.tailOffset)) = [] := by
    rw [List.filter_eq_nil_iff]
    intro loc hloc
    have hstart := start_of_mem_locate
      (fun x hx => hentries x (List.mem_append_left _ hx)) hloc
    simp only [Bool.and_eq_true, decide_eq_true_eq]
    omega
  have hmid : (locationsBehind front mid).filter (fun loc =>
      decide (entryCount front ≤ loc.start) && decide (loc.start < p.tailOffset))
      = locationsBehind front mid := by
    rw [List.filter_eq_self]
    intro loc hloc
    have hstart := start_of_mem_locate
      (fun x hx => hentries x (List.mem_append_right _ hx)) hloc
    rw [htail, entryCount_append]
    simp only [Bool.and_eq_true, decide_eq_true_eq]
    omega
  have hmore : (locationsBehind (front ++ mid) more).filter (fun loc =>
      decide (entryCount front ≤ loc.start) && decide (loc.start < p.tailOffset)) = [] := by
    rw [List.filter_eq_nil_iff]
    intro loc hloc
    have hstart := (mem_locate hloc).1
    rw [htail]
    simp only [Bool.and_eq_true, decide_eq_true_eq]
    omega
  rw [framesFrom, h, ← List.append_assoc, locations_append_behind, locations_append_behind,
    List.filter_append, List.filter_append, hfront, hmid, hmore, List.nil_append, List.append_nil,
    locationsBehind, locate_take, ← List.map_take]
  rfl

theorem framesFrom_of_boundary (h : p.frames = locations (front ++ later))
    (htail : p.tailOffset = entryCount (front ++ later))
    (hentries : ∀ frame ∈ front ++ later, frame.entries ≠ []) (count : Nat) :
    p.framesFrom (entryCount front) count
      = locate (entryCount front) (encodeAll front).length ((later.take count).map Frame.span) := by
  have hall : p.frames = locations (front ++ (later ++ [])) := by rw [List.append_nil, h]
  exact framesFrom_of_between hall htail hentries count

theorem hasFrameAt_of_boundary {frame : Frame}
    (h : p.frames = locations (front ++ frame :: later)) :
    p.hasFrameAt (entryCount front) = true := by
  unfold hasFrameAt
  rw [h, locations_append, List.map_cons, locate]
  simp

/-- **A read from the start of a frame gives the commits from there on.** -/
theorem read_of_holds (h : p.Holds disk place (front ++ later))
    (hframes : ∀ frame ∈ front ++ later, IsCommit maxField frame) (maxWindow : Nat)
    {start : Revision} (hstart : start.offset.toNat = entryCount front) (count : Nat) :
    p.read disk maxField maxWindow start count
      = .ok ((commitsFrom p.number (entryCount front) later).take count) := by
  have htail := h.tailOffset
  have hentries : ∀ frame ∈ front ++ later, frame.entries ≠ [] :=
    fun frame hframe => (hframes frame hframe).entries_ne
  unfold read
  rw [hstart, htail, entryCount_append, if_neg (by omega)]
  cases later with
  | nil => simp [commitsFrom]
  | cons frame later =>
    have hpos : 0 < frame.entries.length :=
      List.length_pos_iff.2 (hentries frame (List.mem_append_right _ List.mem_cons_self))
    cases count with
    | zero => simp
    | succ count =>
      rw [if_neg (by simp only [entryCount_cons]; omega), hasFrameAt_of_boundary h.index]
      simp only [Bool.not_true, Bool.false_eq_true, if_false]
      rcases h.stores with ⟨file, hentry, hcontent⟩ | ⟨-, hempty⟩
      · rw [Disk.read_of_file h.names h.short hentry]
        simp only [framesFrom_of_boundary h.index h.tailOffset hentries]
        -- the file is cut in front of the frames to be read, and behind them
        have hdata : disk.content file = encodeAll front
            ++ (encodeAll ((frame :: later).take (count + 1))
              ++ encodeAll ((frame :: later).drop (count + 1))) := by
          rw [hcontent, encodeAll_append, ← encodeAll_append (List.take _ _),
            List.take_append_drop]
        rw [hdata, commitsFrom_take]
        refine mapM_readWindow p maxWindow _ _ _ _ _ ?_ rfl
        intro x hx
        exact hframes x (List.mem_append_right _ (List.mem_of_mem_take hx))
      · simpa using encodeAll_eq_nil hempty

end CommitLog.Partition
