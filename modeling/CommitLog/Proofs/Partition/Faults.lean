import CommitLog.Proofs.Disk.Faults
import CommitLog.Proofs.Frame.Decode
import CommitLog.Proofs.Partition.Append
import CommitLog.Proofs.Partition.Read

/-!
# Partitions whose writes go wrong

A write that fails may leave a front part of its frame behind, and cutting it off may fail as well.
The index knows nothing of that: it records the next frame where it takes the file to end, while the
frame lands where the file does end. So what stands where a frame is recorded need not be the frame.

`Filling` keeps both apart: it is a row of slots, each with the frame that is recorded there and the
bytes that stand there, and what was left behind the last of them. Whatever goes wrong with an
attempt, the slots in front stay as they are (`append_of_filled`), and the commit of a slot is read
back exactly if its frame stands in it (`read_one_iff`).
-/

namespace CommitLog.Partition

open CommitLog.Disk (Alters maxFileLength)
open CommitLog.Frame (IsCommit)

/-! ## What a file holds -/

/-- A frame that has been recorded, and what stands in the file where it is recorded. -/
structure Slot where
  frame : Frame
  bytes : Bytes
  length_eq : bytes.length = frame.encode.length

namespace Slot

/-- What stands there is the frame. -/
def IsIntact (slot : Slot) : Prop := slot.bytes = slot.frame.encode

/-- The slot of a frame that stands where it is recorded. -/
def intact (frame : Frame) : Slot := ⟨frame, frame.encode, rfl⟩

/-- The slot of a frame that is recorded in front of what was left, but written behind it. -/
def behind (stray : Bytes) (frame : Frame) : Slot where
  frame := frame
  bytes := (stray ++ frame.encode).take frame.encode.length
  length_eq := by simp

@[simp] theorem frame_behind (stray : Bytes) (frame : Frame) :
    (behind stray frame).frame = frame := rfl

theorem isIntact_behind_iff {stray : Bytes} {frame : Frame} :
    (behind stray frame).IsIntact ↔ frame.encode <+: stray ++ frame.encode := by
  rw [List.prefix_iff_eq_take]
  exact eq_comm

end Slot

/-- What the file of a partition holds: what stands where frames are recorded, and what was left
behind the last of them. -/
structure Filling where
  file : Nat
  slots : List Slot
  stray : Bytes

namespace Filling

/-- The frames that are recorded. -/
def frames (filling : Filling) : List Frame := filling.slots.map Slot.frame

/-- The bytes of the file. -/
def content (filling : Filling) : Bytes := filling.slots.flatMap Slot.bytes ++ filling.stray

/-- What the file holds when something else was left behind the slots. -/
def leave (filling : Filling) (stray : Bytes) : Filling := { filling with stray }

/-- What the file holds when a frame has been written and recorded. -/
def add (filling : Filling) (frame : Frame) : Filling where
  file := filling.file
  slots := filling.slots ++ [.behind filling.stray frame]
  stray := (filling.stray ++ frame.encode).drop frame.encode.length

theorem frames_add (filling : Filling) (frame : Frame) :
    (filling.add frame).frames = filling.frames ++ [frame] := List.map_append

theorem content_add (filling : Filling) (frame : Frame) :
    (filling.add frame).content = filling.content ++ frame.encode := by
  have hsplit := List.take_append_drop frame.encode.length (filling.stray ++ frame.encode)
  simp only [add, content, Slot.behind, List.flatMap_append, List.flatMap_cons, List.flatMap_nil,
    List.append_nil, List.append_assoc, hsplit]

theorem stray_add (filling : Filling) (frame : Frame) (h : filling.stray = []) :
    (filling.add frame).stray = [] := by
  unfold add
  rw [h, List.nil_append, List.drop_length]

/-- The slots are as long as their frames. -/
theorem length_slots (slots : List Slot) :
    (slots.flatMap Slot.bytes).length = (encodeAll (slots.map Slot.frame)).length := by
  induction slots with
  | nil => rfl
  | cons slot later ih =>
    rw [List.flatMap_cons, List.map_cons, encodeAll_cons, List.length_append, List.length_append,
      slot.length_eq, ih]

theorem take_content (filling : Filling) :
    filling.content.take (encodeAll filling.frames).length = (filling.leave []).content := by
  rw [frames, ← length_slots, content, List.take_left' rfl, leave, content, List.append_nil]

end Filling

/-! ## Filled partitions -/

variable {maxField : Nat} {p : Partition} {disk after : Disk} {filling : Filling} {number : Nat}
  {bytes : Bytes} {result : Except Disk.Failure Unit}

/-- What stands in the file of a partition behind the frames that are recorded. -/
def stray (p : Partition) (disk : Disk) : Bytes :=
  match disk.read p.path with
  | .ok data => data.drop p.tailBytes
  | .error _ => []

/-- The file that a partition is written to holds this, and the index tells of its frames. -/
structure Filled (maxField : Nat) (p : Partition) (disk : Disk) (filling : Filling) : Prop where
  resolve : disk.resolve p.path = .ok (.file filling.file)
  size : filling.file < disk.contents.size
  content : disk.content filling.file = filling.content
  handle : p.handle = some (.file filling.file)
  index : p.frames = locations filling.frames
  tailOffset : p.tailOffset = entryCount filling.frames
  tailBytes : p.tailBytes = (encodeAll filling.frames).length
  room : p.tailBytes ≤ maxFileLength
  isCommit : ∀ frame ∈ filling.frames, IsCommit maxField frame

namespace Filled

variable (h : p.Filled maxField disk filling)

include h

theorem read : disk.read p.path = .ok filling.content := by
  rw [Disk.read_of_resolve h.resolve, h.content]

theorem stray : p.stray disk = filling.stray := by
  unfold Partition.stray
  rw [h.read, h.tailBytes, Filling.frames, ← Filling.length_slots]
  exact List.drop_left' rfl

theorem tailBytes_le : p.tailBytes ≤ (disk.content filling.file).length := by
  rw [h.content, h.tailBytes, Filling.content, List.length_append, Filling.length_slots]
  exact Nat.le_add_right ..

/-- Offsets are far from their limit. -/
theorem toNat_tail : p.tail.offset.toNat = entryCount filling.frames := by
  have hcount := entryCount_le_length filling.frames
  have hroom := h.room
  have hmax : maxFileLength = 2 ^ 63 - 1 := rfl
  rw [h.tailBytes] at hroom
  rw [tail, h.tailOffset, UInt64.toNat_ofNat']
  omega

/-- What happens to other files is no concern of a partition. -/
theorem of_ne (halters : Alters disk after number bytes) (hne : filling.file ≠ number) :
    p.Filled maxField after filling where
  resolve := by rw [Disk.resolve_congr halters.directories, h.resolve]
  size := by rw [halters.size]; exact h.size
  content := by rw [halters.content_of_ne _ hne, h.content]
  handle := h.handle
  index := h.index
  tailOffset := h.tailOffset
  tailBytes := h.tailBytes
  room := h.room
  isCommit := h.isCommit

/-- Something else was left behind the slots. -/
theorem leave {left : Bytes}
    (halters : Alters disk after filling.file (filling.leave left).content) :
    p.Filled maxField after (filling.leave left) where
  resolve := by rw [Disk.resolve_congr halters.directories]; exact h.resolve
  size := by rw [halters.size]; exact h.size
  content := halters.content
  handle := h.handle
  index := h.index
  tailOffset := h.tailOffset
  tailBytes := h.tailBytes
  room := h.room
  isCommit := h.isCommit

/-- A frame has been written and recorded. -/
theorem record {frame : Frame} (hframe : IsCommit maxField frame)
    (halters : Alters disk after filling.file (filling.add frame).content)
    (hroom : p.tailBytes + frame.encode.length ≤ maxFileLength) :
    (p.record ⟨p.tailOffset, p.tailBytes, frame.encode.length, frame.entries.length⟩).Filled
      maxField after (filling.add frame) where
  resolve := by rw [Disk.resolve_congr halters.directories]; exact h.resolve
  size := by rw [halters.size]; exact h.size
  content := halters.content
  handle := h.handle
  index := by
    rw [Filling.frames_add, locations_append, Partition.record, h.index, h.tailOffset, h.tailBytes]
    rfl
  tailOffset := by
    simp only [Partition.record, Location.stop, h.tailOffset, Filling.frames_add,
      entryCount_append, entryCount_cons, entryCount_nil, Nat.add_zero]
  tailBytes := by
    simp only [Partition.record, Location.endPos, h.tailBytes, Filling.frames_add,
      encodeAll_append, encodeAll_cons, encodeAll_nil, List.append_nil, List.length_append]
  room := hroom
  isCommit other hother := by
    rw [Filling.frames_add] at hother
    rcases List.mem_append.1 hother with hother | hother
    · exact h.isCommit other hother
    · rw [List.mem_singleton.1 hother]
      exact hframe

end Filled

/-- A partition whose file and index tell of the same frames has nothing left behind them. -/
theorem filled_of_holds {place : Disk.Place} {frames : List Frame}
    (h : p.Holds disk place frames) (hsound : disk.Sound)
    (hhandle : p.handle = some (.file number))
    (hframes : ∀ frame ∈ frames, IsCommit maxField frame) :
    p.Filled maxField disk ⟨number, frames.map .intact, []⟩ := by
  obtain ⟨hentry, hcontent⟩ := h.content hhandle
  have hsame : (Filling.mk number (frames.map .intact) []).frames = frames := by
    rw [Filling.frames, List.map_map]
    exact List.map_id frames
  refine ⟨?_, hsound.file_lt _ _ hentry, ?_, hhandle, ?_, ?_, ?_, ?_, ?_⟩
  · rw [Disk.resolve_of_names h.names, Disk.lookup_of_short h.short, hentry]
  · rw [hcontent, Filling.content, List.append_nil, List.flatMap_map]
    rfl
  · rw [hsame, h.index]
  · rw [hsame, h.tailOffset]
  · rw [hsame, h.tailBytes]
  · rw [h.tailBytes]
    exact h.stores.length_le hsound
  · rw [hsame]
    exact hframes

/-! ## Appending -/

/-- A write leaves a front part of its bytes behind what was there, and all of them if it says
so. -/
theorem alters_write {durable : Bool} (hnumber : number < disk.contents.size)
    (hrun : write disk (.file number) durable bytes = (result, after)) :
    ∃ landed, Alters disk after number (disk.content number ++ bytes.take landed) ∧
      (result = .ok () → bytes.take landed = bytes ∧
        (disk.content number).length + bytes.length ≤ maxFileLength) := by
  unfold write at hrun
  rcases happend : disk.append (.file number) bytes with ⟨_ | _, written⟩
  all_goals
    obtain ⟨landed, hlands, hall⟩ := Disk.alters_append hnumber happend
    simp only [happend] at hrun
  · obtain ⟨rfl, rfl⟩ := hrun
    exact ⟨landed, hlands, nofun⟩
  · cases durable with
    | false =>
      obtain ⟨rfl, rfl⟩ := hrun
      exact ⟨landed, hlands, fun _ => hall rfl⟩
    | true =>
      have hsync : Alters written after number _ := Disk.alters_sync hrun
      rw [hlands.content] at hsync
      exact ⟨landed, hlands.trans hsync, fun _ => hall rfl⟩

/-- If the frame of an attempt cannot be written, the file is cut back to the frames before it. -/
def CutsBack (p : Partition) (durable : Bool) (attempt : RawAttempt) (env : Env) : Prop :=
  ∀ handle failure written, attempt.expected = p.tail → p.handle = some handle →
    write env.disk handle durable (frameOf attempt env.ids.next.1 env.now).encode
      = (.error failure, written) →
    (written.setLength handle p.tailBytes).1 = .ok ()

/-- What appending an attempt comes to, whatever goes wrong with it. -/
structure Tried (maxField : Nat) (p : Partition) (durable : Bool) (attempt : RawAttempt) (env : Env)
    (filling : Filling) (answer : Except LogError RawOutcome) (moved : Partition) (later : Env)
    (filling' : Filling) : Prop where
  number : moved.number = p.number
  file : filling'.file = filling.file
  /-- What stands where frames are recorded is not touched. -/
  slots : filling.slots <+: filling'.slots
  alters : Alters env.disk later.disk filling.file filling'.content
  filled : moved.Filled maxField later.disk filling'
  stray : p.CutsBack durable attempt env → filling.stray = [] → filling'.stray = []
  refused : ∀ failure, answer = .error failure → moved = p
  committed : ∀ commit, answer = .ok (.committed commit) →
    commit = commitOf attempt env.ids.next.1 env.now ∧ commit.expected = p.tail ∧
      filling' = filling.add commit.frame

section Append

variable {durable : Bool} {attempt : RawAttempt} {env : Env} {written : Disk}
  {answer : Except LogError RawOutcome} {moved : Partition} {later : Env}

/-- What is left behind the slots when a frame could not be written. -/
theorem exists_left_of_failure (h : p.Filled maxField env.disk filling)
    (hexpected : attempt.expected = p.tail) {failure : Disk.Failure}
    (hwrite : write env.disk (.file filling.file) durable
      (frameOf attempt env.ids.next.1 env.now).encode = (.error failure, written)) :
    ∃ left, (p.CutsBack durable attempt env → left = []) ∧
      Alters env.disk (written.setLength (.file filling.file) p.tailBytes).2 filling.file
        (filling.leave left).content := by
  obtain ⟨landed, hlands, -⟩ := alters_write h.size hwrite
  have hsize : filling.file < written.contents.size := by rw [hlands.size]; exact h.size
  have hlength : p.tailBytes ≤ (written.content filling.file).length := by
    have hle := h.tailBytes_le
    rw [hlands.content, List.length_append]
    omega
  rcases hcut : written.setLength (.file filling.file) p.tailBytes with ⟨cut, last⟩
  rcases Disk.alters_setLength hsize hlength hcut with ⟨-, halters⟩ | ⟨hfailed, halters⟩
  · -- what has landed is cut off, together with what was left before
    have hboth := hlands.trans halters
    rw [hlands.content, List.take_append_of_le_length h.tailBytes_le, h.content, h.tailBytes,
      Filling.take_content] at hboth
    exact ⟨[], fun _ => rfl, hboth⟩
  · have hboth := hlands.trans halters
    rw [hlands.content, h.content, Filling.content, List.append_assoc] at hboth
    refine ⟨filling.stray ++ (frameOf attempt env.ids.next.1 env.now).encode.take landed,
      fun hcuts => absurd ?_ hfailed, hboth⟩
    have hsucceeds := hcuts _ _ _ hexpected h.handle hwrite
    rwa [hcut] at hsucceeds

/-- An attempt whose frame could not be written. -/
theorem tried_of_failure (h : p.Filled maxField env.disk filling)
    (hexpected : attempt.expected = p.tail) {failure : Disk.Failure}
    (hwrite : write env.disk (.file filling.file) durable
      (frameOf attempt env.ids.next.1 env.now).encode = (.error failure, written))
    (hdisk : later.disk = (written.setLength (.file filling.file) p.tailBytes).2) :
    ∃ filling', Tried maxField p durable attempt env filling (.error (.io failure p.path.display)) p
      later filling' := by
  obtain ⟨left, hcut, halters⟩ := exists_left_of_failure h hexpected hwrite
  rw [← hdisk] at halters
  exact ⟨filling.leave left, rfl, rfl, List.prefix_rfl, halters, h.leave halters,
    fun hcuts _ => hcut hcuts, fun _ _ => rfl, nofun⟩

/-- An attempt whose frame has been written. -/
theorem tried_of_write (h : p.Filled maxField env.disk filling)
    (hframe : IsCommit maxField (frameOf attempt env.ids.next.1 env.now))
    (hexpected : attempt.expected = p.tail)
    (hwrite : write env.disk (.file filling.file) durable
      (frameOf attempt env.ids.next.1 env.now).encode = (.ok (), written))
    (hdisk : later.disk = written) :
    ∃ filling', Tried maxField p durable attempt env filling
      (.ok (.committed (commitOf attempt env.ids.next.1 env.now)))
      (p.record ⟨p.tailOffset, p.tailBytes, (frameOf attempt env.ids.next.1 env.now).encode.length,
        attempt.size⟩) later filling' := by
  obtain ⟨landed, hlands, hall⟩ := alters_write h.size hwrite
  obtain ⟨htake, hroom⟩ := hall rfl
  rw [htake, h.content, ← Filling.content_add, ← hdisk] at hlands
  have hend := h.tailBytes_le
  refine ⟨filling.add (frameOf attempt env.ids.next.1 env.now), rfl, rfl,
    List.prefix_append .., hlands, h.record hframe hlands (by omega), ?_, nofun, ?_⟩
  · exact fun _ => Filling.stray_add filling _
  · intro commit hcommit
    obtain rfl := Outcome.committed.inj (Except.ok.inj hcommit)
    exact ⟨rfl, hexpected, rfl⟩

/-- Nothing is written to a partition that is not open. -/
theorem append_of_closed (hclosed : p.handle = none) (durable : Bool) (attempt : RawAttempt)
    (env : Env) : ∃ answer, p.append durable attempt env = (answer, p, env) ∧
      answer.toOption.bind Outcome.commit? = none := by
  unfold append
  by_cases hexpected : attempt.expected = p.tail
  · rw [if_neg (fun hne => hne hexpected), hclosed]
    exact ⟨_, rfl, rfl⟩
  · rw [if_pos hexpected]
    exact ⟨_, rfl, rfl⟩

/-- **Whatever goes wrong with an attempt, the slots in front stay as they are.** -/
theorem append_of_filled (h : p.Filled maxField env.disk filling)
    (hframe : IsCommit maxField (frameOf attempt env.ids.next.1 env.now))
    (hrun : p.append durable attempt env = (answer, moved, later)) :
    ∃ filling', Tried maxField p durable attempt env filling answer moved later filling' := by
  unfold append at hrun
  by_cases hexpected : attempt.expected = p.tail
  · rw [if_neg (fun hne => hne hexpected), h.handle] at hrun
    rcases hwrite : write env.disk (.file filling.file) durable
        (frameOf attempt env.ids.next.1 env.now).encode with ⟨failure | _, written⟩
    all_goals
      simp only [hwrite] at hrun
      obtain ⟨rfl, rfl, rfl⟩ := hrun
    · exact tried_of_failure h hexpected hwrite rfl
    · exact tried_of_write h hframe hexpected hwrite rfl
  · rw [if_pos hexpected] at hrun
    obtain ⟨rfl, rfl, rfl⟩ := hrun
    have halters := Disk.alters_refl env.disk filling.file
    rw [h.content] at halters
    exact ⟨filling, rfl, rfl, List.prefix_rfl, halters, h, fun _ hnone => hnone, fun _ _ => rfl,
      nofun⟩

end Append

/-! ## Reading -/

section Read

variable {data slice : Bytes} {base : Nat} {loc : Location} {slot : Slot}
  {front later : List Slot} {commit : RawCommit} {found : List RawCommit} {maxWindow : Nat}
  {position : Revision}

/-- Where the frame of a slot is recorded when these slots come before it. -/
def Slot.location (front : List Slot) (slot : Slot) : Location where
  start := entryCount (front.map Slot.frame)
  pos := (encodeAll (front.map Slot.frame)).length
  length := slot.frame.encode.length
  entries := slot.frame.entries.length

/-- What stands at the place of a frame is what is in its slot. -/
theorem slice_of_slots (hslots : filling.slots = front ++ slot :: later) :
    (slot.location front).endPos ≤ filling.content.length ∧
      (filling.content.drop (slot.location front).pos).take (slot.location front).length
        = slot.bytes := by
  have hcontent : filling.content = front.flatMap Slot.bytes
      ++ (slot.bytes ++ (later.flatMap Slot.bytes ++ filling.stray)) := by
    simp only [Filling.content, hslots, List.flatMap_append, List.flatMap_cons, List.append_assoc]
  have hfront : (slot.location front).pos = (front.flatMap Slot.bytes).length :=
    (Filling.length_slots front).symm
  have hslot : (slot.location front).length = slot.bytes.length := slot.length_eq.symm
  unfold Location.endPos
  rw [hcontent, hfront, hslot, List.drop_left' rfl, List.take_left' rfl]
  refine ⟨?_, rfl⟩
  simp only [List.length_append]
  omega

theorem slice?_eq_some_iff : slice? data base loc = some slice ↔
    loc.pos - base + loc.length ≤ data.length ∧
      (data.drop (loc.pos - base)).take loc.length = slice := by
  simp only [slice?]
  split
  next hle => simp [hle]
  next hle => simp [hle]

theorem slice?_self (h : slice.length = loc.length) : slice? slice loc.pos loc = some slice := by
  rw [slice?_eq_some_iff, Nat.sub_self, Nat.zero_add, List.drop_zero, ← h, List.take_length]
  exact ⟨Nat.le_refl _, rfl⟩

/-- Only what stands at the place of a frame counts when it is read. -/
theorem readFrame_of_slice (h : slice? data base loc = some slice) :
    p.readFrame maxField data base loc = p.readFrame maxField slice loc.pos loc := by
  have hlength : slice.length = loc.length := by
    obtain ⟨hle, rfl⟩ := slice?_eq_some_iff.1 h
    rw [List.length_take, List.length_drop]
    omega
  unfold readFrame
  rw [h, slice?_self hlength]

/-- A frame that is read at the front of a stretch is read from what stands at its place. -/
theorem readFrame_of_stretch {room : Nat}
    (h : p.readFrame maxField ((data.drop loc.pos).take room) loc.pos loc = .ok commit) :
    p.readFrame maxField ((data.drop loc.pos).take loc.length) loc.pos loc = .ok commit := by
  cases hslice : slice? ((data.drop loc.pos).take room) loc.pos loc with
  | none =>
    unfold readFrame at h
    rw [hslice] at h
    cases h
  | some slice =>
    obtain ⟨hle, hbytes⟩ := slice?_eq_some_iff.1 hslice
    rw [Nat.sub_self, Nat.zero_add, List.length_take] at hle
    rw [Nat.sub_self, List.drop_zero, List.take_take, Nat.min_eq_left (by omega)] at hbytes
    rwa [hbytes, ← readFrame_of_slice hslice]

/-- **A slot is read as its commit exactly if its frame stands in it.** -/
theorem readFrame_slot_iff (p : Partition) (hframe : IsCommit maxField slot.frame)
    (front : List Slot) :
    p.readFrame maxField slot.bytes (slot.location front).pos (slot.location front)
        = .ok (commitAt p.number (entryCount (front.map Slot.frame)) slot.frame) ↔
      slot.IsIntact := by
  constructor
  · intro h
    have hslice : slice? slot.bytes (slot.location front).pos (slot.location front)
        = some slot.bytes := slice?_self slot.length_eq
    unfold readFrame at h
    simp only [hslice] at h
    split at h
    next => cases h
    next => cases h
    next frame span hdecode =>
      split at h
      next => cases h
      next =>
        -- what stands there decodes to the very frame, with nothing behind it
        have hsame : frame = slot.frame := congrArg Commit.frame (Except.ok.inj h)
        obtain ⟨more, -, hbytes, -⟩ := Frame.decode_eq_ok_iff.1 hdecode
        have hlength := slot.length_eq
        rw [hbytes, hsame, List.length_append] at hlength
        obtain rfl := List.eq_nil_of_length_eq_zero (l := more) (by omega)
        rw [Slot.IsIntact, hbytes, hsame, List.append_nil]
  · intro h
    have hread := readFrame_of_frame p hframe [] [] (slot.location front).pos
      (entryCount (front.map Slot.frame))
    rw [List.nil_append, List.append_nil, List.length_nil, Nat.add_zero] at hread
    rw [h]
    exact hread

theorem exists_of_mapM_cons {ε α β : Type} {f : α → Except ε β} {x : α} {xs : List α} {ys : List β}
    (h : (x :: xs).mapM f = .ok ys) : ∃ y later, f x = .ok y ∧ ys = y :: later := by
  rw [List.mapM_cons] at h
  cases hx : f x with
  | error failure =>
    rw [hx] at h
    cases h
  | ok y =>
    cases hxs : xs.mapM f with
    | error failure =>
      rw [hx, hxs] at h
      cases h
    | ok later =>
      rw [hx, hxs] at h
      exact ⟨y, later, rfl, (Except.ok.inj h).symm⟩

/-- What a window is read as begins with what its first frame is read as. -/
theorem head?_of_readWindow {window : Window} (h : p.readWindow maxField data window = .ok found) :
    ∃ commit, found.head? = some commit ∧
      p.readFrame maxField ((data.drop window.first.pos).take window.first.length)
        window.first.pos window.first = .ok commit := by
  unfold readWindow at h
  split at h
  next => cases h
  next =>
    obtain ⟨commit, more, hfirst, rfl⟩ := exists_of_mapM_cons h
    exact ⟨commit, rfl, readFrame_of_stretch hfirst⟩

/-- A window of one frame is read as the frame is. -/
theorem readWindow_singleton (h : loc.endPos ≤ data.length) :
    p.readWindow maxField data ⟨loc, []⟩
      = (p.readFrame maxField ((data.drop loc.pos).take loc.length) loc.pos loc).map
        fun commit => [commit] := by
  have hroom : loc.endPos - loc.pos = loc.length := Nat.add_sub_cancel_left ..
  simp only [readWindow, Window.endPos, Window.pos, Window.frames, List.getLastD_nil, hroom]
  rw [if_neg (Nat.not_lt.2 h), List.mapM_cons, List.mapM_nil]
  cases p.readFrame maxField ((data.drop loc.pos).take loc.length) loc.pos loc <;> rfl

/-- The front of what windows are read as is what the first frame of the first is read as. -/
theorem head?_of_mapM_readWindow {rest : List Location}
    (h : ((Window.group maxWindow (loc :: rest)).mapM (p.readWindow maxField data)).map List.flatten
      = .ok found) :
    ∃ commit, found.head? = some commit ∧
      p.readFrame maxField ((data.drop loc.pos).take loc.length) loc.pos loc = .ok commit := by
  rw [Window.group] at h
  cases hread : (_ :: _ : List Window).mapM (p.readWindow maxField data) with
  | error failure =>
    rw [hread] at h
    cases h
  | ok lists =>
    rw [hread] at h
    obtain rfl := Except.ok.inj h
    obtain ⟨list, more, hwindow, rfl⟩ := exists_of_mapM_cons hread
    obtain ⟨commit, hhead, hfirst⟩ := head?_of_readWindow hwindow
    refine ⟨commit, ?_, hfirst⟩
    rw [List.flatten_cons, List.head?_append, hhead]
    rfl

section Slots

variable (h : p.Filled maxField disk filling) (hslots : filling.slots = front ++ slot :: later)
  (hposition : position.offset.toNat = entryCount (front.map Slot.frame))

include h hslots

theorem Filled.isCommit_slot : IsCommit maxField slot.frame := by
  refine h.isCommit slot.frame (List.mem_map_of_mem ?_)
  rw [hslots]
  exact List.mem_append_right _ List.mem_cons_self

include hposition

/-- A read from a slot on reads that slot first, and then no more than are wanted. -/
theorem Filled.exists_read (maxWindow count : Nat) : ∃ rest : List Location,
    rest.length ≤ count ∧
      p.read disk maxField maxWindow position (count + 1)
        = ((Window.group maxWindow (slot.location front :: rest)).mapM
          (p.readWindow maxField filling.content)).map List.flatten := by
  have hframes : filling.frames
      = front.map Slot.frame ++ slot.frame :: later.map Slot.frame := by
    rw [Filling.frames, hslots, List.map_append, List.map_cons]
  have hindex := h.index
  have htail := h.tailOffset
  have hentries : ∀ frame ∈ filling.frames, frame.entries ≠ [] :=
    fun frame hframe => (h.isCommit frame hframe).entries_ne
  rw [hframes] at hindex htail hentries
  have hpos : 0 < slot.frame.entries.length :=
    List.length_pos_iff.2 (h.isCommit_slot hslots).entries_ne
  have hfrom := framesFrom_of_boundary hindex htail hentries (count + 1)
  rw [List.take_succ_cons, List.map_cons, locate] at hfrom
  refine ⟨locate (entryCount (front.map Slot.frame) + slot.frame.span.entries)
    ((encodeAll (front.map Slot.frame)).length + slot.frame.span.length)
    (((later.map Slot.frame).take count).map Frame.span), ?_, ?_⟩
  · rw [length_locate, List.length_map, List.length_take]
    omega
  · unfold Partition.read
    rw [hposition, htail, entryCount_append, entryCount_cons, if_neg (by omega),
      if_neg (by omega), hasFrameAt_of_boundary hindex, h.read, hfrom]
    rfl

/-- **A read of one commit gives the commit of a slot exactly if its frame stands in it.** -/
theorem Filled.read_one_iff (maxWindow : Nat) :
    p.read disk maxField maxWindow position 1
        = .ok [commitAt p.number (entryCount (front.map Slot.frame)) slot.frame] ↔
      slot.IsIntact := by
  obtain ⟨rest, hrest, hread⟩ := h.exists_read hslots hposition maxWindow 0
  obtain rfl := List.eq_nil_of_length_eq_zero (Nat.le_zero.1 hrest)
  obtain ⟨hend, hslice⟩ := slice_of_slots hslots
  rw [hread, ← readFrame_slot_iff p (h.isCommit_slot hslots) front]
  simp only [Window.group, List.takeWhile_nil, List.dropWhile_nil, List.mapM_cons, List.mapM_nil,
    readWindow_singleton hend, hslice]
  cases p.readFrame maxField slot.bytes (slot.location front).pos (slot.location front) with
  | error failure => simp [bind, Except.bind, Except.map]
  | ok commit => simp [bind, Except.bind, Except.map, pure, Except.pure]

/-- Whatever is read from a slot on begins with its commit, if its frame stands in it. -/
theorem Filled.head?_of_read (hintact : slot.IsIntact) {maxWindow count : Nat}
    (hread : p.read disk maxField maxWindow position (count + 1) = .ok found) :
    found.head? = some (commitAt p.number (entryCount (front.map Slot.frame)) slot.frame) := by
  obtain ⟨rest, -, hsame⟩ := h.exists_read hslots hposition maxWindow count
  obtain ⟨commit, hhead, hfirst⟩ := head?_of_mapM_readWindow (hsame.symm.trans hread)
  rw [(slice_of_slots hslots).2,
    (readFrame_slot_iff p (h.isCommit_slot hslots) front).2 hintact] at hfirst
  rw [hhead, ← Except.ok.inj hfirst]

end Slots

end Read

end CommitLog.Partition
