/-!
# Paths

A path is a text of segments with slashes between them, and is kept as it was written: a slash too
many, a dot or a way back up is part of what is shown to people, though not of where the path
leads. An empty segment and the segment `.` stay where they are, and `..` goes up.
-/

namespace CommitLog

/-- A path, by what stands between its slashes. -/
structure Path where
  segments : List String
deriving DecidableEq, Repr, Inhabited

namespace Path

/-- The path of a text. -/
def ofText (text : String) : Path := ⟨text.splitOn "/"⟩

/-- The text of a path. -/
def display (path : Path) : String := "/".intercalate path.segments

/-- The length of the text in bytes. -/
def size (path : Path) : Nat :=
  path.segments.foldl (fun sum segment => sum + segment.utf8ByteSize + 1) 0 - 1

/-- Whether the text holds the character of number zero. -/
def hasZero (path : Path) : Bool :=
  path.segments.any fun segment => segment.toList.any fun c => c.toNat == 0

/-- Whether a segment stays where it is. -/
def stays (segment : String) : Bool := segment == "" || segment == "."

/-- The segment that goes up. -/
def upward : String := ".."

/-- Whether the text begins with a slash. -/
def isAbsolute (path : Path) : Bool :=
  match path.segments with
  | "" :: _ :: _ => true
  | _ => false

/-- The segments without slashes at the end. -/
def withoutSlashes (path : Path) : List String :=
  (path.segments.reverse.dropWhile fun segment => segment == "").reverse

/-- Whether the text ends in a segment that only a directory can have behind it. -/
def endsInDirectory (path : Path) : Bool :=
  match path.segments.getLast? with
  | some segment => stays segment || segment == upward
  | none => true

/-- A path seen from another one. An absolute path is the same from everywhere. -/
def join (path other : Path) : Path :=
  if other.isAbsolute then other
  else
    match path.segments.getLast? with
    | some "" => ⟨path.segments.dropLast ++ other.segments⟩
    | _ => ⟨path.segments ++ other.segments⟩

/-- The path of a name in the directory of a path. -/
def child (path : Path) (name : String) : Path := path.join ⟨[name]⟩

/-- Segments in reverse without those at the front that stay where they are. -/
def dropStays (reversed : List String) : List String := reversed.dropWhile stays

/-- The path above the last segment that does not stay where it is, if anything is left. -/
def parent? (path : Path) : Option Path :=
  match dropStays path.segments.reverse with
  | [] => none
  | _ :: above =>
    match dropStays above with
    | [] => none
    | above => some ⟨above.reverse⟩

theorem length_dropStays_le (reversed : List String) :
    (dropStays reversed).length ≤ reversed.length :=
  (List.dropWhile_suffix (l := reversed) stays).length_le

/-- The path above is shorter. -/
theorem length_segments_of_parent? {path above : Path} (h : path.parent? = some above) :
    above.segments.length < path.segments.length := by
  unfold parent? at h
  split at h
  next => simp at h
  next last rest hrest =>
    have hlast := length_dropStays_le path.segments.reverse
    have habove := length_dropStays_le rest
    split at h
    next => simp at h
    next =>
      simp only [Option.some.injEq] at h
      subst h
      simp only [hrest, List.length_reverse, List.length_cons] at hlast habove ⊢
      omega

end Path

end CommitLog
