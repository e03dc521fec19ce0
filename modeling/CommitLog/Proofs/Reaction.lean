import CommitLog.Reaction
import CommitLog.Proofs.Reader

/-!
# The binary form of reactions

What is written reads back in front of whatever follows, nothing else is read, and bytes that are
cut short are found out.

How events are written and read is up to the caller, so each law is stated for any such pair that
obeys it: if the events are restored, so is the reaction (`restores_encode`); if cuts through
events are found out, so are cuts through the reaction (`misses_encode`); if events are read only
from their written form, so are reactions (`written_of_read`). Events of raw bytes obey all three.
-/

namespace CommitLog.Reaction

open Reader (read Restores Misses)

variable {ε : Type} {write : ε → Written} {readEvent : Reader Error ε}

/-- A length that 32 bits hold is that of a word. -/
theorem exists_word_of_lt {n : Nat} (h : n < lengthBound) : ∃ word : UInt32, n = word.toNat := by
  refine ⟨UInt32.ofNat n, ?_⟩
  rw [UInt32.toNat_ofNat']
  exact (Nat.mod_eq_of_lt h).symm

/-! ## Writing -/

/-- The number behind the tag: the count of the events, or the length of the reason. -/
def count : Reaction ε → Nat
  | accepted events => events.length
  | rejected reason => (Text.Utf8.encode reason).length

/-- 32 bits hold the number behind the tag. -/
def IsCountable (reaction : Reaction ε) : Prop := reaction.count < lengthBound

instance (reaction : Reaction ε) : Decidable reaction.IsCountable :=
  inferInstanceAs (Decidable (reaction.count < lengthBound))

theorem writeHead_of_eq (tag : UInt8) (what : Counted) {length : Nat} {word : UInt32}
    (h : length = word.toNat) :
    writeHead tag what length = ⟨[tag] ++ Bytes.ofUInt32 word, none⟩ := by
  rw [writeHead, if_pos (h ▸ word.toNat_lt), h, UInt32.ofNat_toNat]
  rfl

theorem writeEvents_of_ok {events : List ε} (h : ∀ event ∈ events, (write event).error = none) :
    writeEvents write events = ⟨events.flatMap fun event => (write event).bytes, none⟩ := by
  induction events with
  | nil => rfl
  | cons event later ih =>
    have hlater := ih fun x hx => h x (List.mem_cons_of_mem _ hx)
    simp only [writeEvents, Written.andThen, h event List.mem_cons_self, hlater,
      List.flatMap_cons]

theorem encode_accepted {events : List ε} {count : UInt32} (hcount : events.length = count.toNat)
    (hevents : ∀ event ∈ events, (write event).error = none) :
    encode write (accepted events)
      = ⟨[acceptedTag] ++ (Bytes.ofUInt32 count
          ++ events.flatMap fun event => (write event).bytes), none⟩ := by
  simp only [encode, writeHead_of_eq _ _ hcount, writeEvents_of_ok hevents, Written.andThen,
    List.append_assoc]

theorem encode_rejected {reason : String} {length : UInt32}
    (hlength : (Text.Utf8.encode reason).length = length.toNat) :
    encode write (rejected reason)
      = ⟨[rejectedTag] ++ (Bytes.ofUInt32 length ++ Text.Utf8.encode reason), none⟩ := by
  simp only [encode, writeHead_of_eq _ _ hlength, Written.andThen, List.append_assoc]

/-- Writing succeeds when the lengths fit and every event can be written. -/
theorem error_encode {reaction : Reaction ε} (hcount : reaction.IsCountable)
    (hevents : ∀ event ∈ reaction.events, (write event).error = none) :
    (encode write reaction).error = none := by
  obtain ⟨word, hword⟩ := exists_word_of_lt hcount
  cases reaction with
  | accepted events => rw [encode_accepted hword hevents]
  | rejected reason => rw [encode_rejected hword]

/-! ## Reading back -/

/-- A reaction whose events are restored is restored. -/
theorem restores_encode {reaction : Reaction ε} (hcount : reaction.IsCountable)
    (hevents : ∀ event ∈ reaction.events, (write event).error = none)
    (hrestores : ∀ event ∈ reaction.events, Restores readEvent (write event).bytes event) :
    Restores (decode readEvent) (encode write reaction).bytes reaction := by
  obtain ⟨word, hword⟩ := exists_word_of_lt hcount
  cases reaction with
  | accepted events =>
    rw [encode_accepted hword hevents]
    refine (Reader.restores_uint8 _ _).bind ((Reader.restores_uint32 _ _).bind ?_)
    rw [← List.append_nil (events.flatMap _), ← hword]
    exact (Reader.restores_repeated hrestores).bind (Reader.restores_pure _)
  | rejected reason =>
    rw [encode_rejected hword]
    refine (Reader.restores_uint8 _ _).bind ((Reader.restores_uint32 _ _).bind ?_)
    rw [← List.append_nil (Text.Utf8.encode reason)]
    refine (Reader.restores_take _ hword).bind ?_
    simp only [Text.Utf8.decode?_encode]
    exact Reader.restores_pure _

/-- The data ends before what is due. -/
def Error.IsTruncation : Error → Prop
  | .truncated needed remaining => remaining < needed
  | _ => False

/-- Where cuts through events are found out, so are cuts through the reaction. -/
theorem misses_encode {reaction : Reaction ε} (hcount : reaction.IsCountable)
    (hevents : ∀ event ∈ reaction.events, (write event).error = none)
    (hrestores : ∀ event ∈ reaction.events, Restores readEvent (write event).bytes event)
    (hmisses : ∀ event ∈ reaction.events,
      Misses readEvent (write event).bytes Error.IsTruncation) :
    Misses (decode readEvent) (encode write reaction).bytes Error.IsTruncation := by
  have htag (tag : UInt8) :
      Misses (Reader.uint8 (Error.truncated 1)) [tag] Error.IsTruncation :=
    Reader.misses_uint8 (fun _ h => h) tag
  have hhead (word : UInt32) :
      Misses (Reader.uint32 (Error.truncated 4)) (Bytes.ofUInt32 word) Error.IsTruncation :=
    Reader.misses_uint32 (fun _ h => h) word
  obtain ⟨word, hword⟩ := exists_word_of_lt hcount
  cases reaction with
  | accepted events =>
    rw [encode_accepted hword hevents]
    refine (htag _).bind (Reader.restores_uint8 _ _) ?_
    refine (hhead _).bind (Reader.restores_uint32 _ _) ?_
    rw [← List.append_nil (events.flatMap _), ← hword]
    exact (Reader.misses_repeated hrestores hmisses).bind (Reader.restores_repeated hrestores)
      (Reader.misses_nil _ _)
  | rejected reason =>
    rw [encode_rejected hword]
    refine (htag _).bind (Reader.restores_uint8 _ _) ?_
    refine (hhead _).bind (Reader.restores_uint32 _ _) ?_
    rw [← List.append_nil (Text.Utf8.encode reason)]
    exact (Reader.misses_take hword fun _ h => h).bind (Reader.restores_take _ hword)
      (Reader.misses_nil _ _)

/-- Where an event is read only from its written form, so is a reaction. -/
theorem written_of_read
    (hreader : ∀ {data event rest}, read readEvent data = (.ok event, rest) →
      data = (write event).bytes ++ rest ∧ (write event).error = none)
    {data rest : Bytes} {reaction : Reaction ε}
    (h : read (decode readEvent) data = (.ok reaction, rest)) :
    (encode write reaction).error = none ∧ data = (encode write reaction).bytes ++ rest := by
  rw [decode, Reader.read_bind_eq_ok] at h
  obtain ⟨tag, afterTag, htag, hbody⟩ := h
  obtain rfl := Reader.read_uint8_eq_ok.1 htag
  split at hbody
  next haccepted =>
    subst haccepted
    obtain ⟨count, afterCount, hcount, hevents⟩ := Reader.read_bind_eq_ok.1 hbody
    obtain rfl := Reader.read_uint32_eq_ok.1 hcount
    obtain ⟨events, afterEvents, hrepeated, hend⟩ := Reader.read_bind_eq_ok.1 hevents
    obtain ⟨hlen, rfl, hwritten⟩ := Reader.read_repeated_eq_ok hreader hrepeated
    simp only [Reader.read_pure, Prod.mk.injEq, Except.ok.injEq] at hend
    obtain ⟨rfl, rfl⟩ := hend
    rw [encode_accepted hlen hwritten]
    simp
  next =>
    split at hbody
    next hrejected =>
      subst hrejected
      obtain ⟨length, afterLength, hlength, hreason⟩ := Reader.read_bind_eq_ok.1 hbody
      obtain rfl := Reader.read_uint32_eq_ok.1 hlength
      obtain ⟨bytes, afterBytes, hbytes, hend⟩ := Reader.read_bind_eq_ok.1 hreason
      obtain ⟨rfl, hlen⟩ := Reader.read_take_eq_ok.1 hbytes
      split at hend
      next reason htext =>
        simp only [Reader.read_pure, Prod.mk.injEq, Except.ok.injEq] at hend
        obtain ⟨rfl, rfl⟩ := hend
        obtain rfl := Text.Utf8.eq_encode_of_decode? htext
        rw [encode_rejected hlen]
        simp
      next => simp at hend
    next => simp at hbody

/-! ## Events of raw bytes -/

theorem writeBytes_eq {event : Bytes} {length : UInt32} (h : event.length = length.toNat) :
    writeBytes event = ⟨Bytes.ofUInt32 length ++ event, none⟩ := by
  rw [writeBytes, if_pos (h ▸ length.toNat_lt), h, UInt32.ofNat_toNat]

theorem error_writeBytes {event : Bytes} (h : event.length < lengthBound) :
    (writeBytes event).error = none := by
  obtain ⟨word, hword⟩ := exists_word_of_lt h
  rw [writeBytes_eq hword]

theorem restores_readBytes {event : Bytes} (h : event.length < lengthBound) :
    Restores readBytes (writeBytes event).bytes event := by
  obtain ⟨word, hword⟩ := exists_word_of_lt h
  rw [writeBytes_eq hword]
  exact (Reader.restores_uint32 _ _).bind (Reader.restores_take _ hword)

theorem misses_readBytes {event : Bytes} (h : event.length < lengthBound) :
    Misses readBytes (writeBytes event).bytes Error.IsTruncation := by
  obtain ⟨word, hword⟩ := exists_word_of_lt h
  rw [writeBytes_eq hword]
  exact (Reader.misses_uint32 (fun _ h => h) _).bind (Reader.restores_uint32 _ _)
    (Reader.misses_take hword fun _ h => h)

theorem written_of_readBytes {data event rest : Bytes}
    (h : read readBytes data = (.ok event, rest)) :
    data = (writeBytes event).bytes ++ rest ∧ (writeBytes event).error = none := by
  rw [readBytes, Reader.read_bind_eq_ok] at h
  obtain ⟨length, afterLength, hlength, hevent⟩ := h
  obtain rfl := Reader.read_uint32_eq_ok.1 hlength
  obtain ⟨rfl, hlen⟩ := Reader.read_take_eq_ok.1 hevent
  rw [writeBytes_eq hlen]
  exact ⟨(List.append_assoc ..).symm, rfl⟩

/-! ## The whole format -/

/-- **The binary form is read back, nothing else is read, and cuts are found out.** For events of
raw bytes: a reaction whose lengths fit is written, comes back in front of whatever follows, and
fails as truncated when the end of its bytes is missing; and whatever is read is the written form
of what comes out. For events of any kind the reaction comes back as soon as each of its events
does. -/
theorem binary_form_is_exact :
    (∀ reaction : Reaction Bytes, reaction.IsCountable →
      (∀ event ∈ reaction.events, event.length < lengthBound) →
      (encodeBytes reaction).error = none ∧
      (∀ rest, read decodeBytes ((encodeBytes reaction).bytes ++ rest) = (.ok reaction, rest)) ∧
      ∀ front back, (encodeBytes reaction).bytes = front ++ back → back ≠ [] →
        ∃ needed remaining, remaining < needed ∧
          (read decodeBytes front).1 = .error (.truncated needed remaining)) ∧
    (∀ (data rest : Bytes) (reaction : Reaction Bytes),
      read decodeBytes data = (.ok reaction, rest) →
      (encodeBytes reaction).error = none ∧ data = (encodeBytes reaction).bytes ++ rest) ∧
    (∀ (ε : Type) (write : ε → Written) (readEvent : Reader Error ε) (reaction : Reaction ε),
      reaction.IsCountable →
      (∀ event ∈ reaction.events, (write event).error = none ∧
        ∀ rest, read readEvent ((write event).bytes ++ rest) = (.ok event, rest)) →
      (encode write reaction).error = none ∧
      ∀ rest, read (decode readEvent) ((encode write reaction).bytes ++ rest)
        = (.ok reaction, rest)) := by
  refine ⟨?_, fun data rest reaction h => written_of_read written_of_readBytes h, ?_⟩
  · intro reaction hcount hlengths
    have hevents : ∀ event ∈ reaction.events, (writeBytes event).error = none :=
      fun event hevent => error_writeBytes (hlengths event hevent)
    have hrestores : ∀ event ∈ reaction.events, Restores readBytes (writeBytes event).bytes event :=
      fun event hevent => restores_readBytes (hlengths event hevent)
    refine ⟨error_encode hcount hevents, restores_encode hcount hevents hrestores, ?_⟩
    intro front back hcut hback
    obtain ⟨error, htruncation, hread⟩ := misses_encode hcount hevents hrestores
      (fun event hevent => misses_readBytes (hlengths event hevent)) front back hcut hback
    cases error with
    | truncated needed remaining => exact ⟨needed, remaining, htruncation, hread⟩
    | _ => exact absurd htruncation id
  · intro ε write readEvent reaction hcount hevents
    exact ⟨error_encode hcount fun event hevent => (hevents event hevent).1,
      restores_encode hcount (fun event hevent => (hevents event hevent).1)
        fun event hevent => (hevents event hevent).2⟩

/-- Two events, one of them empty, with a byte behind them and with the last five bytes missing;
what is read of them is their written form. Events that are single bytes are read back as well. -/
theorem binary_form_is_exact_of_two_events :
    (accepted [[1, 2], []] : Reaction Bytes).IsCountable ∧
      (∀ event ∈ ([[1, 2], []] : List Bytes), event.length < lengthBound) ∧
      read decodeBytes ([0, 2, 0, 0, 0, 2, 0, 0, 0, 1, 2, 0, 0, 0, 0] ++ [9])
        = (.ok (accepted [[1, 2], []]), [9]) ∧
      (∃ needed remaining, remaining < needed ∧
        (read decodeBytes [0, 2, 0, 0, 0, 2, 0, 0, 0, 1]).1
          = .error (.truncated needed remaining)) ∧
      [0, 2, 0, 0, 0, 2, 0, 0, 0, 1, 2, 0, 0, 0, 0] ++ [9]
        = (encodeBytes (accepted [[1, 2], []])).bytes ++ [9] ∧
      read (decode (Reader.uint8 (.truncated 1))) ([0, 2, 0, 0, 0, 5, 6] ++ [9])
        = (.ok (accepted [5, 6]), [9]) := by
  have hcount : (accepted [[1, 2], []] : Reaction Bytes).IsCountable := by decide
  have hlengths : ∀ event ∈ ([[1, 2], []] : List Bytes), event.length < lengthBound := by decide
  have hexact := binary_form_is_exact.1 (accepted [[1, 2], []]) hcount hlengths
  have hsingle := binary_form_is_exact.2.2 UInt8 (fun event => ⟨[event], none⟩)
    (Reader.uint8 (.truncated 1)) (accepted [5, 6]) (by decide)
    fun event _ => ⟨rfl, Reader.restores_uint8 _ event⟩
  exact ⟨hcount, hlengths, hexact.2.1 [9],
    hexact.2.2 [0, 2, 0, 0, 0, 2, 0, 0, 0, 1] [2, 0, 0, 0, 0] (by decide) (by decide),
    (binary_form_is_exact.2.1 _ _ _ (hexact.2.1 [9])).2, hsingle.2 [9]⟩

end CommitLog.Reaction
