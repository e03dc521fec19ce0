import CommitLog.Proofs.Schema.Definitions

/-!
# What the canonical form tells apart

The canonical form of a schema spells a tree, and the tree names everything that the schema has:
its name, its fields in their order, their types and their defaults, where a null default stands
and an absent one does not. So two schemas without binary64 numbers in their defaults have one
canonical form only if they are the same (`eq_of_canonicalForm_eq`), and the fingerprint confuses
two of them only where the hash does, cut down to the bytes that are kept
(`canonicalForm_and_fingerprint_tell_apart`).
-/

namespace CommitLog

namespace Field

variable {field other : Field}

theorem FloatFree.eq_of_tree_eq (h : field.FloatFree) (hother : other.FloatFree)
    (htree : field.tree = other.tree) : field = other := by
  have hslots : field.tree.record? ["name", "type", "default"]
      = other.tree.record? ["name", "type", "default"] := by rw [htree]
  obtain ⟨name, type, default⟩ := field
  obtain ⟨name', type', default'⟩ := other
  simp only [record?_tree, Option.some.injEq, List.cons.injEq, Json.Node.string.injEq,
    and_true] at hslots
  obtain ⟨hname, htype, hdefault⟩ := hslots
  obtain rfl := Json.Piece.ofText_inj hname
  obtain rfl : type = type' := Option.some.inj <| by
    rw [← FieldType.ofName?_name type, Json.Piece.ofText_inj htype, FieldType.ofName?_name]
  cases default with
  | none =>
    cases default' with
    | none => rfl
    | some value' => cases hdefault
  | some value =>
    cases default' with
    | none => cases hdefault
    | some value' =>
      obtain rfl := (h value rfl).eq_of_tree_eq (hother value' rfl) (Option.some.inj hdefault)
      rfl

end Field

/-! ## Fingerprints -/

namespace Fingerprint

/-- The bytes of the hash that a fingerprint keeps. -/
def kept (message : Bytes) : Bytes := (Sha256.digest message).take 8

theorem length_kept (message : Bytes) : (kept message).length = 8 := by
  simp [kept, Sha256.length_digest]

/-- Two messages whose hashes are the same as far as they are kept. -/
def Collide (message other : Bytes) : Prop := message ≠ other ∧ kept message = kept other

/-- The word of a fingerprint has the bytes that are kept. -/
theorem toNat_value_ofBytes (message : Bytes) :
    (ofBytes message).value.toNat = Bytes.toNat (kept message) := by
  have hbound : Bytes.toNat (kept message) < UInt64.size := by
    rw [← Bytes.wordCount_eight, ← length_kept message]
    exact Bytes.toNat_lt _
  exact UInt64.toNat_ofNat_of_lt' hbound

/-- **Fingerprints are the same where the kept bytes are.** -/
theorem ofBytes_eq_iff (message other : Bytes) :
    ofBytes message = ofBytes other ↔ kept message = kept other := by
  constructor
  · intro h
    refine Bytes.toNat_inj ((length_kept message).trans (length_kept other).symm) ?_
    rw [← toNat_value_ofBytes, h, toNat_value_ofBytes]
  · intro h
    exact congrArg (fun bytes => mk (UInt64.ofNat (Bytes.toNat bytes))) h

end Fingerprint

/-! ## Schemas -/

namespace Schema

variable {schema other : Schema}

/-- **The canonical form tells schemas apart.** -/
theorem eq_of_canonicalForm_eq (h : schema.FloatFree) (hother : other.FloatFree)
    (hform : schema.canonicalForm = other.canonicalForm) : schema = other := by
  have htree : schema.tree = other.tree := Option.some.inj <| by
    rw [← h.spells.parse?, ← hother.spells.parse?]
    exact congrArg Json.Node.parse? hform
  have hslots : schema.tree.record? ["name", "fields"] = other.tree.record? ["name", "fields"] := by
    rw [htree]
  obtain ⟨name, fields⟩ := schema
  obtain ⟨name', fields'⟩ := other
  simp only [record?_tree, Option.some.injEq, List.cons.injEq, Json.Node.string.injEq,
    Json.Node.array.injEq, and_true] at hslots
  obtain rfl := Json.Piece.ofText_inj hslots.1
  obtain rfl : fields = fields' :=
    Json.Value.eq_of_map_eq (fun a ha b hb hsame => (h a ha).eq_of_tree_eq (hother b hb) hsame)
      hslots.2
  rfl

/-- **Schemas without binary64 numbers in their defaults have one canonical form only if they are
the same, and one fingerprint only if they are the same or their canonical forms collide.** -/
theorem canonicalForm_and_fingerprint_tell_apart (h : schema.FloatFree) (hother : other.FloatFree) :
    (schema.canonicalForm = other.canonicalForm ↔ schema = other) ∧
      (schema.fingerprint = other.fingerprint
        ↔ schema = other ∨ Fingerprint.Collide schema.canonicalForm other.canonicalForm) := by
  have hform : schema.canonicalForm = other.canonicalForm ↔ schema = other :=
    ⟨eq_of_canonicalForm_eq h hother, congrArg canonicalForm⟩
  refine ⟨hform, ?_⟩
  unfold fingerprint Fingerprint.Collide
  rw [Fingerprint.ofBytes_eq_iff, ← hform]
  constructor
  · intro hhash
    exact (Decidable.em _).imp_right fun hne => ⟨hne, hhash⟩
  · rintro (hsame | ⟨-, hhash⟩)
    · rw [hsame]
    · exact hhash

/-- An order with a row of tags and a note. -/
def orderWithNote (note : Option Json.Value) : Schema :=
  { name := "order"
    fields :=
      [⟨"id", .long, some (.number (.integer (-1)))⟩,
        ⟨"tags", .bytes, some (.array [.string "\"a\"", .object [("b", .bool true)]])⟩,
        ⟨"note", .string, note⟩] }

theorem floatFree_orderWithNote {note : Option Json.Value} (h : ∀ value ∈ note, value.FloatFree) :
    (orderWithNote note).FloatFree := by
  have htag : (Json.Value.object [("b", .bool true)]).FloatFree :=
    .object _ (by simpa using .bool true)
  have htags : (Json.Value.array [.string "\"a\"", .object [("b", .bool true)]]).FloatFree :=
    .array _ (by simpa using ⟨.string _, htag⟩)
  simpa [FloatFree, Field.FloatFree, orderWithNote] using ⟨.integer _, htags, h⟩

theorem canonicalForm_and_fingerprint_tell_apart_of_null_default :
    (orderWithNote none).FloatFree ∧ (orderWithNote (some .null)).FloatFree ∧
      (orderWithNote none).canonicalForm ≠ (orderWithNote (some .null)).canonicalForm ∧
      ¬Fingerprint.Collide (orderWithNote none).canonicalForm
        (orderWithNote (some .null)).canonicalForm := by
  have habsent : (orderWithNote none).FloatFree := floatFree_orderWithNote (by simp)
  have hnull : (orderWithNote (some .null)).FloatFree :=
    floatFree_orderWithNote (by simpa using .null)
  obtain ⟨hform, hfingerprint⟩ := canonicalForm_and_fingerprint_tell_apart habsent hnull
  have hdifferent : orderWithNote none ≠ orderWithNote (some .null) := by simp [orderWithNote]
  refine ⟨habsent, hnull, fun hsame => hdifferent (hform.1 hsame), fun hcollide => ?_⟩
  have hsame := hfingerprint.2 (.inr hcollide)
  revert hsame
  decide +kernel

end Schema

end CommitLog
