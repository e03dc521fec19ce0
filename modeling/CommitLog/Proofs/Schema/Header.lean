import CommitLog.Proofs.Reader
import CommitLog.Schema.Header

/-!
# Headers in front of payloads

Each part of a header is read back in front of whatever follows it, and takes nothing of that: a
part behind its length, the name that is asked for, a fingerprint. The laws of the two headers
follow from these.
-/

namespace CommitLog.Schema

variable {revision : Revision} {name : String} {front : Bytes}

theorem restores_readPart (position : Revision) (part : HeaderPart) {bytes : Bytes}
    (h : bytes.length < lengthBound) :
    Reader.Restores (readPart position part)
      (Bytes.ofUInt32 (UInt32.ofNat bytes.length) ++ bytes) bytes := by
  have hlength : bytes.length = (UInt32.ofNat bytes.length).toNat :=
    (UInt32.toNat_ofNat_of_lt' h).symm
  exact (Reader.restores_uint32 _ _).bind (Reader.restores_take _ hlength)

/-- A name that can be written is written behind its length. -/
theorem encodeName_eq_ok_iff : encodeName revision name = .ok front ↔
    (Text.Utf8.encode name).length < lengthBound ∧
      front = Bytes.ofUInt32 (UInt32.ofNat (Text.Utf8.encode name).length)
        ++ Text.Utf8.encode name := by
  simp only [encodeName]
  split
  next h => simp [h, eq_comm]
  next h => simp [h]

/-- The name that is asked for is found. -/
theorem restores_readName (h : encodeName revision name = .ok front) (position : Revision) :
    Reader.Restores (readName position name) front name := by
  obtain ⟨hlength, rfl⟩ := encodeName_eq_ok_iff.1 h
  intro rest
  unfold readName
  rw [(restores_readPart position .name hlength).read_bind, Text.Utf8.decode?_encode]
  simp only [if_true, Reader.read_pure]

theorem restores_readFingerprint (position : Revision) (fingerprint : Fingerprint) :
    Reader.Restores (readFingerprint position) (Bytes.ofUInt64 fingerprint.value) fingerprint := by
  rw [← List.append_nil (Bytes.ofUInt64 _)]
  exact (Reader.restores_uint64 _ _).bind (Reader.restores_pure fingerprint)

end CommitLog.Schema
