import CommitLog.Partition.Read
import Mathlib.Data.List.Basic
import Mathlib.Data.List.Chain

/-!
# Windows of frames

Grouping frames into windows leaves none out and turns none around (`flatMap_frames_group`). A window
that takes up more than the limit has one frame (`le_limit_of_mem_group`), and a window ends only
where the next frame does not fit in (`isChain_group`).

Where frames lie one after another, all frames of a window lie inside it, and each of them is found
there with just its own bytes (`InRow.fits_of_mem_group`). So no read of such a partition fails
because a frame lies outside its window (`read_ne_outsideWindow`).
-/

namespace CommitLog.Partition

variable {p : Partition} {maxField limit offset count : Nat} {data : Bytes}
  {locs others : List Location} {window : Window} {loc first : Location} {path : String}

/-! ## Frames in a row -/

/-- Frames that lie one after another in the file, each behind the end of those before it. -/
def InRow (locs : List Location) : Prop := locs.Pairwise fun loc later => loc.endPos ≤ later.pos

instance (locs : List Location) : Decidable (InRow locs) :=
  inferInstanceAs (Decidable (locs.Pairwise _))

theorem InRow.sublist (h : InRow locs) (hothers : others.Sublist locs) : InRow others :=
  List.Pairwise.sublist hothers h

theorem Location.pos_le_endPos (loc : Location) : loc.pos ≤ loc.endPos := Nat.le_add_right ..

/-- No frame of a row begins in front of the first. -/
theorem InRow.pos_le (h : InRow (first :: locs)) (hloc : loc ∈ first :: locs) :
    first.pos ≤ loc.pos := by
  rcases List.mem_cons.1 hloc with rfl | hlater
  · exact Nat.le_refl _
  · exact Nat.le_trans first.pos_le_endPos ((List.pairwise_cons.1 h).1 loc hlater)

/-- No frame of a row ends behind the last. -/
theorem InRow.endPos_le (h : InRow (first :: locs)) (hloc : loc ∈ first :: locs) :
    loc.endPos ≤ (locs.getLastD first).endPos := by
  induction locs generalizing first loc with
  | nil =>
    obtain rfl := List.mem_singleton.1 hloc
    exact Nat.le_refl _
  | cons next later ih =>
    obtain ⟨hfirst, hlater⟩ := List.pairwise_cons.1 h
    rw [List.getLastD_cons]
    rcases List.mem_cons.1 hloc with rfl | hloc
    · calc loc.endPos ≤ next.pos := hfirst next List.mem_cons_self
        _ ≤ next.endPos := next.pos_le_endPos
        _ ≤ (later.getLastD next).endPos := ih hlater List.mem_cons_self
    · exact ih hlater hloc

theorem pos_le_of_mem_locate {start pos : Nat} {spans : List Frame.Span}
    (h : loc ∈ locate start pos spans) : pos ≤ loc.pos := by
  induction spans generalizing start pos with
  | nil => exact absurd h List.not_mem_nil
  | cons span later ih =>
    rcases List.mem_cons.1 h with rfl | h
    · exact Nat.le_refl _
    · exact Nat.le_trans (Nat.le_add_right ..) (ih h)

/-- Frames that were located one behind the other are in a row. -/
theorem inRow_locate (start pos : Nat) (spans : List Frame.Span) :
    InRow (locate start pos spans) := by
  induction spans generalizing start pos with
  | nil => exact List.Pairwise.nil
  | cons span later ih =>
    exact List.pairwise_cons.2 ⟨fun _ hloc => pos_le_of_mem_locate hloc, ih ..⟩

/-- The frames of a window that are in a row lie inside it. -/
theorem InRow.within (h : InRow window.frames) (hloc : loc ∈ window.frames) :
    window.pos ≤ loc.pos ∧ loc.endPos ≤ window.endPos :=
  ⟨h.pos_le hloc, h.endPos_le hloc⟩

/-! ## Grouping -/

/-- **The windows hold all frames, each once and in order.** -/
theorem flatMap_frames_group (limit : Nat) (locs : List Location) :
    (Window.group limit locs).flatMap Window.frames = locs := by
  fun_induction Window.group limit locs with
  | case1 => rfl
  | case2 first rest ih =>
    rw [List.flatMap_cons, ih, Window.frames, List.cons_append, List.takeWhile_append_dropWhile]

theorem frames_sublist_of_mem_group (h : window ∈ Window.group limit locs) :
    window.frames.Sublist locs := by
  have hwindow := List.sublist_flatten_of_mem (List.mem_map_of_mem (f := Window.frames) h)
  rwa [← List.flatMap_def, flatMap_frames_group] at hwindow

/-- All frames of a window but the first were admitted to it. -/
theorem admits_of_mem_group (h : window ∈ Window.group limit locs) :
    ∀ loc ∈ window.more, Window.admits limit window.pos loc = true := by
  fun_induction Window.group limit locs with
  | case1 => exact absurd h List.not_mem_nil
  | case2 first rest ih =>
    rcases List.mem_cons.1 h with rfl | h
    · exact List.all_eq_true.1 List.all_takeWhile
    · exact ih h

/-- **A window that takes up more than the limit has one frame.** -/
theorem le_limit_of_mem_group (h : window ∈ Window.group limit locs) :
    window.endPos - window.pos ≤ limit ∨ window.frames.length = 1 := by
  have hadmits := admits_of_mem_group h
  obtain ⟨first, more⟩ := window
  cases more with
  | nil => exact .inr rfl
  | cons next later =>
    refine .inl ?_
    have hlast := hadmits _ (List.getLast_mem (List.cons_ne_nil next later))
    rw [List.getLast_eq_getLastD] at hlast
    rw [Window.endPos, List.getLastD_cons]
    exact of_decide_eq_true hlast

theorem head?_group (limit : Nat) (locs : List Location) :
    (Window.group limit locs).head?.map Window.first = locs.head? := by
  cases locs with
  | nil => rw [Window.group]; rfl
  | cons first rest => rw [Window.group]; rfl

/-- **A window ends only where the next frame does not fit in.** -/
theorem isChain_group (limit : Nat) (locs : List Location) :
    (Window.group limit locs).IsChain fun window next =>
      limit < next.first.endPos - window.pos := by
  fun_induction Window.group limit locs with
  | case1 => exact List.IsChain.nil
  | case2 first rest ih =>
    refine List.isChain_cons.2 ⟨fun next hnext => ?_, ih⟩
    have hhead := head?_group limit (rest.dropWhile (Window.admits limit first.pos))
    have hrefused := List.head?_dropWhile_not (Window.admits limit first.pos) rest
    rw [Option.mem_def.1 hnext, Option.map_some] at hhead
    rw [← hhead] at hrefused
    exact Nat.not_le.1 (of_decide_eq_false hrefused)

/-! ## Frames in the bytes of a window -/

/-- A frame inside a stretch of the file is found there, with just its own bytes. -/
theorem slice?_of_within {pos endPos : Nat} (hpos : pos ≤ loc.pos) (hend : loc.endPos ≤ endPos)
    (hdata : endPos ≤ data.length) :
    slice? ((data.drop pos).take (endPos - pos)) pos loc
      = some ((data.drop loc.pos).take loc.length) := by
  unfold Location.endPos at hend
  have hroom : loc.pos - pos + loc.length ≤ ((data.drop pos).take (endPos - pos)).length := by
    rw [List.length_take, List.length_drop]
    omega
  have hplace : pos + (loc.pos - pos) = loc.pos := Nat.add_sub_cancel' hpos
  have hlength : min loc.length (endPos - pos - (loc.pos - pos)) = loc.length := by omega
  simp only [slice?]
  rw [if_pos hroom, List.drop_take, List.drop_drop, hplace, List.take_take, hlength]

/-- A window begins and ends with frames of its own, takes up no more than the limit unless it has
one frame, and every frame of it is found in its bytes. -/
structure Window.Fits (limit : Nat) (window : Window) : Prop where
  bounds : ∃ first last, window.frames.head? = some first ∧ window.frames.getLast? = some last ∧
    window.pos = first.pos ∧ window.endPos = last.endPos
  short : window.endPos - window.pos ≤ limit ∨ window.frames.length = 1
  within : ∀ loc ∈ window.frames, window.pos ≤ loc.pos ∧ loc.endPos ≤ window.endPos
  found : ∀ data : Bytes, window.endPos ≤ data.length → ∀ loc ∈ window.frames,
    slice? ((data.drop window.pos).take (window.endPos - window.pos)) window.pos loc
      = some ((data.drop loc.pos).take loc.length)

/-- **Frames in a row are grouped into windows that fit.** -/
theorem InRow.fits_of_mem_group (hrow : InRow locs) (h : window ∈ Window.group limit locs) :
    window.Fits limit := by
  have hwithin : ∀ loc ∈ window.frames, window.pos ≤ loc.pos ∧ loc.endPos ≤ window.endPos :=
    fun _ hloc => (hrow.sublist (frames_sublist_of_mem_group h)).within hloc
  refine ⟨⟨window.first, window.more.getLastD window.first, rfl, ?_, rfl, rfl⟩,
    le_limit_of_mem_group h, hwithin, fun data hdata loc hloc => ?_⟩
  · rw [Window.frames, List.getLast?_cons, List.getLastD_eq_getLast?]
  · exact slice?_of_within (hwithin loc hloc).1 (hwithin loc hloc).2 hdata

/-- A frame whose bytes are found is never said to lie outside its window. -/
theorem readFrame_ne_outsideWindow {pos place : Nat} {bytes : Bytes}
    (h : slice? data pos loc = some bytes) :
    p.readFrame maxField data pos loc ≠ .error (.corrupt path place .outsideWindow) := by
  unfold readFrame
  rw [h]
  simp only
  split
  · simp
  · simp
  · split <;> simp

/-- What fails for a row of things fails for one of them. -/
theorem exists_of_mapM_eq_error {ε α β : Type} {f : α → Except ε β} {xs : List α} {e : ε}
    (h : xs.mapM f = .error e) : ∃ x ∈ xs, f x = .error e := by
  induction xs with
  | nil => cases h
  | cons x later ih =>
    rw [List.mapM_cons] at h
    cases hx : f x with
    | error failure =>
      rw [hx] at h
      obtain rfl := Except.error.inj h
      exact ⟨x, List.mem_cons_self, hx⟩
    | ok y =>
      cases hlater : later.mapM f with
      | error failure =>
        rw [hx, hlater] at h
        obtain rfl := Except.error.inj h
        obtain ⟨found, hfound, hfails⟩ := ih hlater
        exact ⟨found, List.mem_cons_of_mem _ hfound, hfails⟩
      | ok ys =>
        rw [hx, hlater] at h
        cases h

theorem readWindow_ne_outsideWindow (h : window.Fits limit) {place : Nat} :
    p.readWindow maxField data window ≠ .error (.corrupt path place .outsideWindow) := by
  intro hread
  unfold readWindow at hread
  split at hread
  next => simp at hread
  next hlong =>
    obtain ⟨loc, hloc, hfails⟩ := exists_of_mapM_eq_error hread
    exact readFrame_ne_outsideWindow (h.found data (Nat.not_lt.1 hlong) loc hloc) hfails

/-- The frames to be read are frames of the index, in their order. -/
theorem framesFrom_sublist (p : Partition) (offset count : Nat) :
    (p.framesFrom offset count).Sublist p.frames :=
  (List.take_sublist ..).trans List.filter_sublist

/-- **No read finds a frame outside its window**, whatever the file holds. -/
theorem read_ne_outsideWindow (h : InRow p.frames) (disk : Disk) (maxField maxWindow : Nat)
    (start : Revision) (count place : Nat) :
    p.read disk maxField maxWindow start count
      ≠ .error (.corrupt path place .outsideWindow) := by
  intro hread
  simp only [read] at hread
  split at hread
  next => simp at hread
  split at hread
  next => simp at hread
  split at hread
  next => simp at hread
  split at hread
  next => simp at hread
  next data _ =>
    cases hwindows : (Window.group maxWindow (p.framesFrom start.offset.toNat count)).mapM
        (p.readWindow maxField data) with
    | ok lists =>
      rw [hwindows] at hread
      cases hread
    | error failure =>
      rw [hwindows] at hread
      obtain rfl := Except.error.inj hread
      obtain ⟨window, hwindow, hfails⟩ := exists_of_mapM_eq_error hwindows
      have hrow := h.sublist (framesFrom_sublist p start.offset.toNat count)
      exact readWindow_ne_outsideWindow (hrow.fits_of_mem_group hwindow) hfails

end CommitLog.Partition
