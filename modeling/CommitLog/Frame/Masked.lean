import CommitLog.Frame

/-!
# Masked frames

Two runs that commit the same entries differ in the identifiers they draw. To compare the bytes of
their files, the header of every frame of a given time is masked.
-/

namespace CommitLog.Frame

/-- Puts zeros in place of the identifier and the time behind every delimiter where the time is
`now`. -/
def mask (now : UInt64) (data : Bytes) : Bytes :=
  if data.isEmpty then []
  else
    match readHeader? data with
    | some (_, timestamp, _) =>
      if data.take wordSize == Bytes.ofUInt32 delimiter && timestamp == now then
        data.take wordSize ++ List.replicate (headerSize - wordSize) 0
          ++ mask now (data.drop headerSize)
      else data.take 1 ++ mask now (data.drop 1)
    | none => data.take 1 ++ mask now (data.drop 1)
termination_by data.length
decreasing_by
  all_goals
    cases data with
    | nil => simp_all
    | cons b rest => simp only [List.length_drop, List.length_cons, headerSize]; omega

end CommitLog.Frame
