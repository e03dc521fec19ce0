import CommitLog.Revisions
import Mathlib.Data.List.Induction

/-!
# Positions and their binary form

What is recorded for a partition is what was recorded last, and recording it is nothing to any other
partition. How the positions are kept in order does not show.

A binary form announces a count, and that many pairs of a partition and an offset follow it. What a
buffer announces and holds is said here in bytes: `announced`, `formLength`, `pairs`. A buffer is
read exactly when it holds all of its pairs (`isSome_decode_iff`), whatever order they are in, and of
several pairs for one partition the last one counts (`offset?_ofList`). A checkpoint comes back from
what was written of it. Not every buffer is what would be written of the checkpoint in it: it is just
when its pairs come in ascending order (`encode_ofList_eq_iff`).
-/

namespace CommitLog.Revisions

variable {rs init : Revisions} {r : Revision} {number other : UInt32}

theorem lookup_place (number other : UInt32) (offset : UInt64)
    (positions : List (UInt32 × UInt64)) :
    (place number offset positions).lookup other
      = if other = number then some offset else positions.lookup other := by
  induction positions with
  | nil =>
    by_cases h : other = number
    · simp [place, h]
    · have hdiffer : (other == number) = false := beq_eq_false_iff_ne.2 h
      simp [place, List.lookup_cons, h, hdiffer]
  | cons head rest ih =>
    obtain ⟨p, o⟩ := head
    unfold place
    by_cases h : other = number
    · subst h
      split
      next => simp
      next =>
        split
        next => simp
        next hne =>
          have hdiffer : (other == p) = false := beq_eq_false_iff_ne.2 hne
          rw [List.lookup_cons, hdiffer, ih, if_pos rfl, if_pos rfl]
    · have hdiffer : (other == number) = false := beq_eq_false_iff_ne.2 h
      rw [if_neg h]
      split
      next => rw [List.lookup_cons, hdiffer]
      next =>
        split
        next heq =>
          subst heq
          rw [List.lookup_cons, List.lookup_cons, hdiffer]
        next => rw [List.lookup_cons, List.lookup_cons, ih, if_neg h]

theorem get_set (rs : Revisions) (r : Revision) (other : UInt32) :
    (rs.set r).get other = if other = r.partition then r else rs.get other := by
  rw [get, offset?, set, lookup_place]
  by_cases h : other = r.partition
  · rw [if_pos h, if_pos h, h]
    rfl
  · rw [if_neg h, if_neg h]
    rfl

/-- Advancing to a position is nothing to other partitions, and never goes back. -/
theorem get_advance (rs : Revisions) (r : Revision) (other : UInt32) :
    (rs.advance r).get other
      = if other = r.partition then ⟨r.partition, max r.offset (rs.get r.partition).offset⟩
        else rs.get other := by
  unfold advance
  rw [get_set]

theorem get_advance_of_le (h : (rs.get r.partition).offset ≤ r.offset) (other : UInt32) :
    (rs.advance r).get other = if other = r.partition then r else rs.get other := by
  have hmax : max r.offset (rs.get r.partition).offset = r.offset := by
    simp only [max]
    split
    next hle => exact UInt64.le_antisymm h hle
    next => rfl
  rw [get_advance, hmax]

/-! ## Several positions -/

theorem get_foldl_set_of_not_mem (positions : List Revision) :
    ∀ (init : Revisions), (∀ r ∈ positions, r.partition ≠ other) →
      (positions.foldl set init).get other = init.get other := by
  induction positions with
  | nil => intro _ _; rfl
  | cons r later ih =>
    intro init h
    rw [List.foldl_cons, ih _ (fun x hx => h x (List.mem_cons_of_mem _ hx)), get_set,
      if_neg (Ne.symm (h r List.mem_cons_self))]

/-- Of several positions of different partitions, each is recorded. -/
theorem get_ofList_of_mem {positions : List Revision}
    (hnodup : (positions.map Revision.partition).Nodup) (hr : r ∈ positions) :
    (ofList positions).get r.partition = r := by
  have hfold : ∀ (positions : List Revision) (init : Revisions),
      (positions.map Revision.partition).Nodup → r ∈ positions →
      (positions.foldl set init).get r.partition = r := by
    intro positions
    induction positions with
    | nil => intro _ _ h; simp at h
    | cons first later ih =>
      intro init hnodup hr
      obtain ⟨hfirst, hlater⟩ := List.nodup_cons.1 hnodup
      rw [List.foldl_cons]
      rcases List.mem_cons.1 hr with rfl | hr
      · rw [get_foldl_set_of_not_mem, get_set, if_pos rfl]
        intro x hx hsame
        exact hfirst (List.mem_map.2 ⟨x, hx, hsame⟩)
      · exact ih _ hlater hr
  exact hfold positions empty hnodup hr

open Revision (encodedSize)

variable {data rest : Bytes} {positions : List Revision} {count : UInt32}

/-! ## What a buffer announces and holds -/

/-- How many pairs the front of the data announces. -/
def announced (data : Bytes) : Nat := Bytes.toNat (data.take 4)

/-- How many bytes the count and the announced pairs take. -/
def formLength (data : Bytes) : Nat := 4 + announced data * encodedSize

/-- The pair with so many others in front of it. -/
def pairAt (data : Bytes) (k : Nat) : Revision :=
  let pair := data.drop (4 + k * encodedSize)
  ⟨UInt32.ofNat (Bytes.toNat (pair.take 4)), UInt64.ofNat (Bytes.toNat ((pair.drop 4).take 8))⟩

/-- The announced pairs in the order they stand in. -/
def pairs (data : Bytes) : List Revision := (List.range (announced data)).map (pairAt data)

/-- The bytes of pairs behind their count. -/
def form (count : UInt32) (positions : List Revision) : Bytes :=
  Bytes.ofUInt32 count ++ positions.flatMap Revision.encode

theorem length_flatMap_encode (positions : List Revision) :
    (positions.flatMap Revision.encode).length = positions.length * encodedSize := by
  induction positions with
  | nil => simp
  | cons r later ih =>
    rw [List.flatMap_cons, List.length_append, ih, Revision.length_encode, List.length_cons,
      Nat.succ_mul, Nat.add_comm]

theorem length_form (count : UInt32) (positions : List Revision) :
    (form count positions).length = 4 + positions.length * encodedSize := by
  rw [form, List.length_append, length_flatMap_encode, Bytes.length_ofUInt32]

theorem toNat_ofUInt32 (n : UInt32) : Bytes.toNat (Bytes.ofUInt32 n) = n.toNat := by
  rw [Bytes.ofUInt32, Bytes.toNat_ofNat, Bytes.wordCount_four, Nat.mod_eq_of_lt n.toNat_lt]

theorem toNat_ofUInt64 (n : UInt64) : Bytes.toNat (Bytes.ofUInt64 n) = n.toNat := by
  rw [Bytes.ofUInt64, Bytes.toNat_ofNat, Bytes.wordCount_eight, Nat.mod_eq_of_lt n.toNat_lt]

theorem announced_form (count : UInt32) (positions : List Revision) (rest : Bytes) :
    announced (form count positions ++ rest) = count.toNat := by
  rw [announced, form, List.append_assoc, List.take_left' (Bytes.length_ofUInt32 count),
    toNat_ofUInt32]

theorem formLength_form (hcount : positions.length = count.toNat) (rest : Bytes) :
    formLength (form count positions ++ rest) = (form count positions).length := by
  rw [formLength, announced_form, length_form, hcount]

/-- Each pair stands at its own place. -/
theorem pairAt_form (count : UInt32) (rest : Bytes) (front : List Revision) (r : Revision)
    (later : List Revision) :
    pairAt (form count (front ++ r :: later) ++ rest) front.length = r := by
  have hplace : (form count (front ++ r :: later) ++ rest).drop (4 + front.length * encodedSize)
      = Bytes.ofUInt32 r.partition
        ++ (Bytes.ofUInt64 r.offset ++ (later.flatMap Revision.encode ++ rest)) := by
    have hsplit : form count (front ++ r :: later) ++ rest
        = form count front ++ (r.encode ++ (later.flatMap Revision.encode ++ rest)) := by
      simp only [form, List.flatMap_append, List.flatMap_cons, List.append_assoc]
    rw [hsplit, List.drop_left' (length_form count front), Revision.encode, List.append_assoc]
  simp only [pairAt, hplace]
  rw [List.take_left' (Bytes.length_ofUInt32 _), List.drop_left' (Bytes.length_ofUInt32 _),
    List.take_left' (Bytes.length_ofUInt64 _), toNat_ofUInt32, toNat_ofUInt64, UInt32.ofNat_toNat,
    UInt64.ofNat_toNat]

theorem pairs_form (hcount : positions.length = count.toNat) (rest : Bytes) :
    pairs (form count positions ++ rest) = positions := by
  refine List.ext_getElem ?_ ?_
  · rw [pairs, announced_form, List.length_map, List.length_range, hcount]
  · intro k _ hk
    have hsplit : positions = positions.take k ++ positions[k] :: positions.drop (k + 1) := by
      rw [List.getElem_cons_drop, List.take_append_drop]
    have hpair := pairAt_form count rest (positions.take k) positions[k] (positions.drop (k + 1))
    rw [← hsplit, List.length_take_of_le (Nat.le_of_lt hk)] at hpair
    simp only [pairs, List.getElem_map, List.getElem_range, hpair]

/-! ## Where there is room for pairs, there are pairs -/

theorem exists_ofUInt32_append (data : Bytes) (h : 4 ≤ data.length) :
    ∃ n rest, data = Bytes.ofUInt32 n ++ rest := by
  cases hword : Bytes.readUInt32? data with
  | none => exact absurd (Bytes.readUInt32?_eq_none_iff.1 hword) (Nat.not_lt.2 h)
  | some found => exact ⟨found.1, found.2, Bytes.readUInt32?_eq_some_iff.1 hword⟩

theorem exists_ofUInt64_append (data : Bytes) (h : 8 ≤ data.length) :
    ∃ n rest, data = Bytes.ofUInt64 n ++ rest := by
  cases hword : Bytes.readUInt64? data with
  | none => exact absurd (Bytes.readUInt64?_eq_none_iff.1 hword) (Nat.not_lt.2 h)
  | some found => exact ⟨found.1, found.2, Bytes.readUInt64?_eq_some_iff.1 hword⟩

/-- Twelve bytes are a pair, whatever they are. -/
theorem exists_encode_append (data : Bytes) (h : encodedSize ≤ data.length) :
    ∃ (r : Revision) (rest : Bytes), data = r.encode ++ rest := by
  unfold encodedSize at h
  obtain ⟨partition, behind, rfl⟩ := exists_ofUInt32_append data (by omega)
  rw [List.length_append, Bytes.length_ofUInt32] at h
  obtain ⟨offset, rest, rfl⟩ := exists_ofUInt64_append behind (by omega)
  exact ⟨⟨partition, offset⟩, rest, (List.append_assoc ..).symm⟩

theorem exists_positions (n : Nat) (data : Bytes) (h : n * encodedSize ≤ data.length) :
    ∃ (positions : List Revision) (rest : Bytes), positions.length = n ∧
      data = positions.flatMap Revision.encode ++ rest := by
  induction n generalizing data with
  | zero => exact ⟨[], data, rfl, rfl⟩
  | succ n ih =>
    rw [Nat.succ_mul] at h
    obtain ⟨r, behind, rfl⟩ := exists_encode_append data (by omega)
    rw [List.length_append, Revision.length_encode] at h
    obtain ⟨later, rest, hlength, rfl⟩ := ih behind (by omega)
    exact ⟨r :: later, rest, by rw [List.length_cons, hlength], (List.append_assoc ..).symm⟩

/-- Data that holds all it announces is the form of its pairs, and what follows. -/
theorem exists_form (h : formLength data ≤ data.length) :
    ∃ (count : UInt32) (positions : List Revision) (rest : Bytes),
      positions.length = count.toNat ∧ data = form count positions ++ rest := by
  unfold formLength at h
  obtain ⟨count, behind, rfl⟩ := exists_ofUInt32_append data (by omega)
  rw [announced, List.take_left' (Bytes.length_ofUInt32 count), toNat_ofUInt32, List.length_append,
    Bytes.length_ofUInt32] at h
  obtain ⟨positions, rest, hlength, rfl⟩ := exists_positions count.toNat behind (by omega)
  exact ⟨count, positions, rest, hlength, (List.append_assoc ..).symm⟩

/-! ## Reading -/

theorem decodePositions?_flatMap (positions : List Revision) (init : Revisions) (rest : Bytes) :
    decodePositions? positions.length init (positions.flatMap Revision.encode ++ rest)
      = some (positions.foldl set init, rest) := by
  induction positions generalizing init with
  | nil => rfl
  | cons r later ih =>
    rw [List.length_cons, decodePositions?, List.flatMap_cons, List.append_assoc,
      Revision.decode?_encode]
    exact ih (init.set r)

/-- The form of pairs is read whatever follows it, and each pair is recorded over the ones before. -/
theorem decode_form (hcount : positions.length = count.toNat) (rest : Bytes) :
    decode (form count positions ++ rest) = (some (ofList positions), rest) := by
  have hroom : ¬ (positions.flatMap Revision.encode ++ rest).length
      < count.toNat * encodedSize := by
    rw [List.length_append, length_flatMap_encode, hcount]
    omega
  rw [form, List.append_assoc, decode, Bytes.readUInt32?_ofUInt32]
  simp only [if_neg hroom]
  rw [← hcount, decodePositions?_flatMap]
  rfl

/-- Data that does not hold all it announces is not read. -/
theorem decode_of_lt (h : data.length < formLength data) : (decode data).1 = none := by
  unfold decode
  cases hword : Bytes.readUInt32? data with
  | none => rfl
  | some found =>
    obtain ⟨count, behind⟩ := found
    obtain rfl := Bytes.readUInt32?_eq_some_iff.1 hword
    rw [formLength, announced, List.take_left' (Bytes.length_ofUInt32 count), toNat_ofUInt32,
      List.length_append, Bytes.length_ofUInt32] at h
    simp only [if_pos (show behind.length < count.toNat * encodedSize by omega)]

/-- **Data is read exactly when it holds all that it announces.** -/
theorem isSome_decode_iff (data : Bytes) :
    (decode data).1.isSome ↔ formLength data ≤ data.length := by
  constructor
  · intro h
    refine Nat.le_of_not_lt fun hlt => ?_
    rw [decode_of_lt hlt] at h
    exact Bool.noConfusion h
  · intro h
    obtain ⟨count, positions, rest, hcount, rfl⟩ := exists_form h
    rw [decode_form hcount]
    rfl

/-! ## What is recorded of several pairs -/

theorem offset?_set (rs : Revisions) (r : Revision) (partition : UInt32) :
    (rs.set r).offset? partition
      = if partition = r.partition then some r.offset else rs.offset? partition :=
  lookup_place ..

/-- The last of the offsets that pairs give to a partition. -/
def lastOffset? (positions : List Revision) (partition : UInt32) : Option UInt64 :=
  (positions.reverse.find? fun r => r.partition == partition).map Revision.offset

theorem lastOffset?_concat (positions : List Revision) (r : Revision) (partition : UInt32) :
    lastOffset? (positions ++ [r]) partition
      = if partition = r.partition then some r.offset else lastOffset? positions partition := by
  rw [lastOffset?, List.reverse_append, List.reverse_singleton, List.singleton_append,
    List.find?_cons]
  by_cases h : partition = r.partition
  · simp [h]
  · have hdiffer : (r.partition == partition) = false := beq_eq_false_iff_ne.2 (Ne.symm h)
    rw [hdiffer, if_neg h]
    rfl

theorem ofList_concat (positions : List Revision) (r : Revision) :
    ofList (positions ++ [r]) = (ofList positions).set r := by
  rw [ofList, List.foldl_append]
  rfl

/-- **Of several pairs for one partition the last one counts.** -/
theorem offset?_ofList (positions : List Revision) (partition : UInt32) :
    (ofList positions).offset? partition = lastOffset? positions partition := by
  induction positions using List.reverseRecOn with
  | nil => rfl
  | append_singleton front r ih => rw [ofList_concat, offset?_set, lastOffset?_concat, ih]

/-! ## Ascending order -/

/-- Pairs in ascending order of their partitions, each partition at most once. -/
def Ascending (positions : List Revision) : Prop :=
  positions.Pairwise fun r later => r.partition < later.partition

instance (positions : List Revision) : Decidable (Ascending positions) :=
  inferInstanceAs (Decidable (positions.Pairwise _))

theorem ascending_toList (rs : Revisions) : Ascending rs.toList :=
  List.pairwise_map.2 rs.sorted

/-- A partition behind all others is placed at the end. -/
theorem place_of_forall_lt {partition : UInt32} (offset : UInt64)
    {positions : List (UInt32 × UInt64)} (h : ∀ x ∈ positions, x.1 < partition) :
    place partition offset positions = positions ++ [(partition, offset)] := by
  induction positions with
  | nil => rfl
  | cons head rest ih =>
    have hhead : head.1 < partition := h head List.mem_cons_self
    rw [place, if_neg (UInt32.not_lt.2 (UInt32.le_of_lt hhead)),
      if_neg (Ne.symm (UInt32.ne_of_lt hhead)), ih fun x hx => h x (List.mem_cons_of_mem _ hx)]
    rfl

/-- A position behind all that are recorded is recorded at the end. -/
theorem toList_set_of_forall_lt {r : Revision}
    (h : ∀ x ∈ rs.toList, x.partition < r.partition) : (rs.set r).toList = rs.toList ++ [r] := by
  have hlt : ∀ x ∈ rs.positions, x.1 < r.partition :=
    fun x hx => h ⟨x.1, x.2⟩ (List.mem_map.2 ⟨x, hx, rfl⟩)
  have hplace : (rs.set r).positions = rs.positions ++ [(r.partition, r.offset)] :=
    place_of_forall_lt r.offset hlt
  rw [toList, hplace, List.map_append]
  rfl

/-- Pairs in ascending order are recorded as they stand. -/
theorem toList_ofList (h : Ascending positions) : (ofList positions).toList = positions := by
  induction positions using List.reverseRecOn with
  | nil => rfl
  | append_singleton front r ih =>
    obtain ⟨hfront, -, hlast⟩ := List.pairwise_append.1 h
    have hlist := ih hfront
    have hlt : ∀ x ∈ (ofList front).toList, x.partition < r.partition :=
      fun x hx => hlast x (hlist ▸ hx) r List.mem_cons_self
    rw [ofList_concat, toList_set_of_forall_lt hlt, hlist]

theorem toList_inj {other : Revisions} (h : rs.toList = other.toList) : rs = other := by
  obtain ⟨positions, sorted⟩ := rs
  obtain ⟨others, sortedOthers⟩ := other
  have hpair : ∀ x y : UInt32 × UInt64,
      (⟨x.1, x.2⟩ : Revision) = ⟨y.1, y.2⟩ → x = y := fun x y hxy =>
    Prod.ext (congrArg Revision.partition hxy) (congrArg Revision.offset hxy)
  obtain rfl : positions = others := List.map_inj_right hpair |>.1 h
  rfl

theorem ofList_toList (rs : Revisions) : ofList rs.toList = rs :=
  toList_inj (toList_ofList (ascending_toList rs))

/-! ## Writing -/

theorem length_toList (rs : Revisions) : rs.toList.length = rs.size := List.length_map ..

theorem encode_eq_form (h : rs.size ≤ maxCount) :
    rs.encode = form (UInt32.ofNat rs.size) rs.toList := by
  simp only [encode, Nat.min_eq_left h]
  rw [List.take_of_length_le (Nat.le_of_eq (length_toList rs))]
  rfl

theorem toNat_size (h : rs.size ≤ maxCount) : rs.toList.length = (UInt32.ofNat rs.size).toNat := by
  rw [length_toList, UInt32.toNat_ofNat_of_lt']
  unfold maxCount at h
  have hpos : 0 < UInt32.size := by decide
  omega

theorem length_place_le (partition : UInt32) (offset : UInt64)
    (positions : List (UInt32 × UInt64)) :
    (place partition offset positions).length ≤ positions.length + 1 := by
  induction positions with
  | nil => simp [place]
  | cons head rest ih =>
    unfold place
    split
    · simp
    · split
      · simp
      · simpa using ih

theorem size_ofList_le (positions : List Revision) :
    (ofList positions).size ≤ positions.length := by
  induction positions using List.reverseRecOn with
  | nil => simp [ofList, size, empty]
  | append_singleton front r ih =>
    have hplace := length_place_le r.partition r.offset (ofList front).positions
    rw [ofList_concat, List.length_append, List.length_singleton]
    exact Nat.le_trans hplace (Nat.succ_le_succ ih)

/-- **What is written of pairs that were read is what was read, exactly if they ascend.** -/
theorem encode_ofList_eq_iff (hcount : positions.length = count.toNat) :
    (ofList positions).encode = form count positions ↔ Ascending positions := by
  have hsize : (ofList positions).size ≤ maxCount := by
    have hle := size_ofList_le positions
    have hlt := count.toNat_lt
    simp only [maxCount, UInt32.size]
    omega
  rw [encode_eq_form hsize]
  constructor
  · intro h
    -- equal forms hold equal pairs
    have hpairs := congrArg (fun data => pairs (data ++ [])) h
    simp only [pairs_form (toNat_size hsize), pairs_form hcount] at hpairs
    exact hpairs ▸ ascending_toList (ofList positions)
  · intro h
    have hlist := toList_ofList h
    have hlength := length_toList (ofList positions)
    rw [hlist, hcount] at hlength
    rw [hlist, ← hlength, UInt32.ofNat_toNat]

/-! ## The whole format -/

/-- A checkpoint is not found in less than what was written of it. -/
theorem decode_front (hsize : rs.size ≤ maxCount) {front back : Bytes}
    (h : rs.encode = front ++ back) (hback : back ≠ []) : (decode front).1 = none := by
  refine decode_of_lt ?_
  have hform := formLength_form (toNat_size hsize) []
  rw [List.append_nil, ← encode_eq_form hsize, h] at hform
  have hpos := List.length_pos_iff.2 hback
  by_cases hfour : 4 ≤ front.length
  · -- the count is there, and announces as much as before
    rw [formLength, announced, List.take_append_of_le_length hfour, List.length_append] at hform
    rw [formLength, announced]
    omega
  · unfold formLength
    omega

/-- **The binary form of checkpoints is exact.** A checkpoint comes back in front of whatever
follows, and from no less than all that was written of it. Any data is read exactly when it holds the
count and all pairs that it announces; just these bytes are taken, every partition gets the offset of
its last pair and no other partition any, and what is written of the checkpoint are the same bytes
exactly when the pairs were in strictly ascending order. -/
theorem checkpoint_form_is_exact :
    (∀ rs : Revisions, rs.size ≤ maxCount →
      (∀ rest, decode (rs.encode ++ rest) = (some rs, rest)) ∧
      ∀ front back, rs.encode = front ++ back → back ≠ [] → (decode front).1 = none) ∧
    ∀ data : Bytes,
      ((decode data).1.isSome ↔ formLength data ≤ data.length) ∧
      ∀ rs, (decode data).1 = some rs →
        (decode data).2 = data.drop (formLength data) ∧
        (∀ partition, rs.offset? partition = lastOffset? (pairs data) partition) ∧
        (rs.encode = data.take (formLength data) ↔ Ascending (pairs data)) := by
  constructor
  · intro rs hsize
    constructor
    · intro rest
      rw [encode_eq_form hsize, decode_form (toNat_size hsize), ofList_toList]
    · intro front back h
      exact decode_front hsize h
  · intro data
    constructor
    · exact isSome_decode_iff data
    · intro rs hread
      have hroom := (isSome_decode_iff data).1 (by rw [hread]; rfl)
      obtain ⟨count, positions, rest, hcount, rfl⟩ := exists_form hroom
      rw [decode_form hcount] at hread ⊢
      obtain rfl := Option.some.inj hread
      rw [formLength_form hcount, pairs_form hcount, List.take_left' rfl, List.drop_left' rfl]
      exact ⟨rfl, offset?_ofList positions, encode_ofList_eq_iff hcount⟩

/-- Two positions with two bytes behind them, and with the last one missing. Three pairs in no order
are read as the same two positions: partition 1 comes twice, and has the later offset; what would be
written is shorter than what was read. -/
theorem checkpoint_form_is_exact_of_repeated_partition :
    let rs := ofList [⟨0, 7⟩, ⟨1, 9⟩]
    let data := form 3 [⟨1, 5⟩, ⟨0, 7⟩, ⟨1, 9⟩] ++ [0xAB]
    rs.size ≤ maxCount ∧ decode (rs.encode ++ [1, 2]) = (some rs, [1, 2]) ∧
      (decode (rs.encode.take 27)).1 = none ∧
      (decode data).1.isSome ∧ (decode data).1 = some rs ∧ (decode data).2 = [0xAB] ∧
      rs.offset? 1 = some 9 ∧ rs.encode ≠ data.take (formLength data) := by
  intro rs data
  have hsize : rs.size ≤ maxCount := by decide
  obtain ⟨hback, hfront⟩ := checkpoint_form_is_exact.1 rs hsize
  obtain ⟨hread, hexact⟩ := checkpoint_form_is_exact.2 data
  have hsome : (decode data).1 = some rs := by decide
  obtain ⟨hrest, hlast, hsame⟩ := hexact rs hsome
  refine ⟨hsize, hback [1, 2], ?_, hread.2 (by decide), hsome, hrest.trans (by decide),
    (hlast 1).trans (by decide), fun h => ?_⟩
  · exact hfront (rs.encode.take 27) (rs.encode.drop 27) (List.take_append_drop ..).symm (by decide)
  · exact absurd (hsame.1 h) (by decide)

end CommitLog.Revisions
