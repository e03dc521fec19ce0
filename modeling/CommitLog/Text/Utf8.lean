import CommitLog.Bytes

/-!
# Text as bytes

Text is stored as UTF-8. Bytes that are the UTF-8 of some text are the UTF-8 of no other, so
reading accepts exactly what writing produces: `decode?_eq_some_iff`.
-/

namespace CommitLog.Text.Utf8

/-- The UTF-8 bytes of a text. -/
def encode (text : String) : Bytes := text.toByteArray.data.toList

/-- The text whose UTF-8 bytes are the given ones. -/
def decode? (data : Bytes) : Option String := String.fromUTF8? ⟨data.toArray⟩

theorem decode?_encode (text : String) : decode? (encode text) = some text := by
  unfold decode? encode String.fromUTF8?
  rw [dif_pos text.isValidUTF8]
  rfl

theorem eq_encode_of_decode? {data : Bytes} {text : String} (h : decode? data = some text) :
    data = encode text := by
  unfold decode? String.fromUTF8? at h
  split at h
  · simp only [Option.some.injEq] at h
    subst h
    simp [encode, String.fromUTF8]
  · contradiction

theorem decode?_eq_some_iff {data : Bytes} {text : String} :
    decode? data = some text ↔ data = encode text :=
  ⟨eq_encode_of_decode?, fun h => h ▸ decode?_encode text⟩

end CommitLog.Text.Utf8
