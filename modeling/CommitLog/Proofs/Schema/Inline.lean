import CommitLog.Proofs.Schema.Definitions
import CommitLog.Proofs.Schema.Header

/-!
# Inline headers

An inline header is written for any schema whose definition and name have lengths that 32 bits hold,
whatever its defaults are. What reading it comes to is decided by the definition alone (`readBack`):
the schema is given back if no default is null and none opens too many levels
(`inline_headers_are_read_back`). A null default is lost on the way, and the fingerprint no longer
matches (`mismatch_of_null_default`). Validation, which the codec does not ask for, rules out
both (`read_decode_of_validate`).
-/

namespace CommitLog.Schema.Inline

variable {revision : Revision} {name : String} {schema : Schema} {header : Bytes}

/-- What a header that was written for a schema is read as. -/
def readBack (position : Revision) (name : String) (schema : Schema) : Except Error Schema :=
  if schema.IsShallow then
    if schema.readBack.fingerprint = schema.fingerprint then .ok schema.readBack
    else .error (.fingerprintMismatch name schema.fingerprint schema.readBack.fingerprint position)
  else .error (.malformed position .unreadableDefinition)

/-- A header is written if the lengths of its parts can be, and holds the name, the fingerprint and
the definition. -/
theorem encode_eq_ok_iff : encode revision name schema = .ok header ↔
    schema.canonicalForm.length < lengthBound ∧ ∃ front, encodeName revision name = .ok front ∧
      header = front ++ Bytes.ofUInt64 schema.fingerprint.value
        ++ Bytes.ofUInt32 (UInt32.ofNat schema.canonicalForm.length) ++ schema.canonicalForm := by
  unfold encode
  by_cases hlength : lengthBound ≤ schema.canonicalForm.length
  · have hlarge : ¬schema.canonicalForm.length < lengthBound := Nat.not_lt_of_le hlength
    simp only [if_pos hlength, hlarge, false_and, iff_false]
    exact nofun
  · have hfits : schema.canonicalForm.length < lengthBound := Nat.lt_of_not_le hlength
    simp only [if_neg hlength, hfits, true_and]
    cases encodeName revision name with
    | error error => exact ⟨nofun, nofun⟩
    | ok front =>
      constructor
      · intro h
        exact ⟨front, rfl, (Except.ok.inj h).symm⟩
      · rintro ⟨_, hfront, rfl⟩
        rw [Except.ok.inj hfront]
        rfl

/-- **A header is read as what its definition comes to**, and leaves the payload. -/
theorem read_decode (hexact : schema.Exact) (h : encode revision name schema = .ok header)
    (position : Revision) (payload : Bytes) :
    Reader.read (decode position name) (header ++ payload)
      = (readBack position name schema, payload) := by
  obtain ⟨hlength, front, hname, rfl⟩ := encode_eq_ok_iff.1 h
  unfold decode
  rw [List.append_assoc, List.append_assoc, List.append_assoc,
    (restores_readName hname position).read_bind,
    (restores_readFingerprint position schema.fingerprint).read_bind, ← List.append_assoc,
    (restores_readPart position .definition hlength).read_bind, hexact.parse?_canonicalForm]
  unfold readBack
  by_cases hshallow : schema.IsShallow
  · by_cases hsame : schema.readBack.fingerprint = schema.fingerprint
    · simp [hshallow, hsame]
    · simp [hshallow, hsame]
  · simp [hshallow]

/-- A definition that comes back as it was has the fingerprint that was written. -/
theorem readBack_of_shallow (position : Revision) (name : String) (hshallow : schema.IsShallow)
    (hback : schema.readBack = schema) : readBack position name schema = .ok schema := by
  unfold readBack
  rw [if_pos hshallow, hback, if_pos rfl]

/-- **Inline headers are read back.** Of a schema whose defaults are exact values, none of them null
and none opening more levels than a definition leaves it, a header that was written under any name
is read in front of any payload as that very schema, and leaves the payload. Of any other schema
with exact defaults it is read as what its definition comes to. -/
theorem inline_headers_are_read_back (hexact : schema.Exact)
    (h : encode revision name schema = .ok header) :
    (schema.IsShallow → (∀ field ∈ schema.fields, field.default ≠ some .null) →
      ∀ position payload,
        Reader.read (decode position name) (header ++ payload) = (.ok schema, payload)) ∧
    ∀ position payload, Reader.read (decode position name) (header ++ payload)
      = (readBack position name schema, payload) := by
  have hread := read_decode hexact h
  refine ⟨fun hshallow hnull position payload => ?_, hread⟩
  rw [hread, readBack_of_shallow position name hshallow (Schema.readBack_eq hnull)]

/-- A schema with a nested default is given back, the null inside it too. -/
theorem inline_headers_are_read_back_of_nested_default :
    ∃ header, encode ⟨0, 3⟩ "alias" ⟨"order", [⟨"note", .string,
          some (.object [("a", .number (.integer (-1))), ("b", .array [.null])])⟩]⟩ = .ok header ∧
      Reader.read (decode ⟨0, 3⟩ "alias") (header ++ [7])
        = (.ok ⟨"order", [⟨"note", .string,
          some (.object [("a", .number (.integer (-1))), ("b", .array [.null])])⟩]⟩, [7]) := by
  have hname : encodeName ⟨0, 3⟩ "alias" = .ok _ := encodeName_eq_ok_iff.2 ⟨by decide, rfl⟩
  have hlength : (canonicalForm ⟨"order", [⟨"note", .string, some
      (.object [("a", .number (.integer (-1))), ("b", .array [.null])])⟩]⟩).length
        < lengthBound := by decide +kernel
  have hencode := encode_eq_ok_iff.2 ⟨hlength, _, hname, rfl⟩
  refine ⟨_, hencode, (inline_headers_are_read_back ?_ hencode).1 (by decide) (by simp) _ _⟩
  intro field hfield value hvalue
  obtain rfl := List.mem_singleton.1 hfield
  obtain rfl := Option.some.inj hvalue
  refine .object _ (by decide) fun member hmember => ?_
  simp only [List.mem_cons, List.not_mem_nil, or_false] at hmember
  rcases hmember with rfl | rfl
  · exact .integer _ (by decide) (by decide)
  · exact .array _ fun item hitem => List.mem_singleton.1 hitem ▸ .null

/-- A header of a schema with a null default is written, and then refused. -/
theorem mismatch_of_null_default :
    ∃ header, encode ⟨0, 3⟩ "order" ⟨"order", [⟨"note", .string, some .null⟩]⟩ = .ok header ∧
      Reader.read (decode ⟨0, 3⟩ "order") (header ++ [7])
        = (.error (.fingerprintMismatch "order" ⟨0x8a450d5b3288d26d⟩ ⟨0x21677c8d02ebe279⟩ ⟨0, 3⟩),
          [7]) := by
  have hname : encodeName ⟨0, 3⟩ "order" = .ok _ := encodeName_eq_ok_iff.2 ⟨by decide, rfl⟩
  have hlength : (canonicalForm ⟨"order", [⟨"note", .string, some .null⟩]⟩).length
      < lengthBound := by decide +kernel
  have hencode := encode_eq_ok_iff.2 ⟨hlength, _, hname, rfl⟩
  have hexact : Schema.Exact ⟨"order", [⟨"note", .string, some .null⟩]⟩ := by
    intro field hfield value hvalue
    obtain rfl := List.mem_singleton.1 hfield
    obtain rfl := Option.some.inj hvalue
    exact .null
  have hwritten : Schema.fingerprint ⟨"order", [⟨"note", .string, some .null⟩]⟩
      = ⟨0x8a450d5b3288d26d⟩ := by decide +kernel
  have hread : Schema.fingerprint ⟨"order", [⟨"note", .string, none⟩]⟩
      = ⟨0x21677c8d02ebe279⟩ := by decide +kernel
  have hback : Schema.readBack ⟨"order", [⟨"note", .string, some .null⟩]⟩
      = ⟨"order", [⟨"note", .string, none⟩]⟩ := rfl
  refine ⟨_, hencode, ?_⟩
  rw [read_decode hexact hencode, readBack, if_pos (by decide), hback, hread, hwritten,
    if_neg (by decide)]

/-- A schema that passes validation is given back. -/
theorem read_decode_of_validate (hexact : schema.Exact) (hvalid : validate schema = .ok ())
    (h : encode revision name schema = .ok header) (position : Revision) (payload : Bytes) :
    Reader.read (decode position name) (header ++ payload) = (.ok schema, payload) := by
  have hflaw : schema.flaw? = none := by
    unfold validate at hvalid
    cases hflaw : schema.flaw? with
    | none => rfl
    | some flaw => simp [hflaw] at hvalid
  rw [read_decode hexact h,
    readBack_of_shallow position name (isShallow_of_flaw? hflaw) (readBack_of_flaw? hflaw)]

end CommitLog.Schema.Inline
