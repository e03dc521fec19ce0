import CommitLog.Reader

/-!
# What readers do

A format that is written and read back has three laws. Its reader gives back the value in front of
whatever follows the written bytes (`Restores`), it takes nothing but written bytes (the `_eq_ok`
lemmas), and it fails on bytes that are cut short (`Misses`). Each law holds of the plain readers
and passes on to readers that run one after another (`Restores.bind`, `read_bind_eq_ok`,
`Misses.bind`), so the laws of a composed format follow from those of its parts.
-/

namespace CommitLog.Reader

variable {ε α β : Type}

/-! ## Running readers -/

@[simp] theorem read_pure (value : α) (data : Bytes) :
    read (pure value : Reader ε α) data = (.ok value, data) := rfl

@[simp] theorem read_throw (error : ε) (data : Bytes) :
    read (throw error : Reader ε α) data = (.error error, data) := rfl

theorem read_bind (reader : Reader ε α) (next : α → Reader ε β) (data : Bytes) :
    read (reader >>= next) data
      = match read reader data with
        | (.ok value, rest) => read (next value) rest
        | (.error error, rest) => (.error error, rest) := by
  rcases h : read reader data with ⟨_ | value, rest⟩ <;>
  · unfold read at h ⊢
    simp only [ExceptT.run_bind, StateT.run_bind, h]
    rfl

/-- A row of readers succeeds when each of them does. -/
theorem read_bind_eq_ok {reader : Reader ε α} {next : α → Reader ε β} {data rest : Bytes}
    {result : β} : read (reader >>= next) data = (.ok result, rest) ↔
      ∃ value middle, read reader data = (.ok value, middle) ∧
        read (next value) middle = (.ok result, rest) := by
  rw [read_bind]
  rcases hread : read reader data with ⟨error | value, middle⟩
  · simp
  · simp only [Prod.mk.injEq, Except.ok.injEq]
    constructor
    · intro h
      exact ⟨value, middle, ⟨rfl, rfl⟩, h⟩
    · rintro ⟨_, _, ⟨rfl, rfl⟩, h⟩
      exact h

theorem read_take (n : Nat) (short : Nat → ε) (data : Bytes) :
    read (take n short) data
      = match Bytes.split? n data with
        | some (front, rest) => (.ok front, rest)
        | none => (.error (short data.length), data) := rfl

/-! ## What a success has taken -/

theorem read_take_eq_ok {n : Nat} {short : Nat → ε} {data front rest : Bytes} :
    read (take n short) data = (.ok front, rest) ↔ data = front ++ rest ∧ front.length = n := by
  rw [read_take, ← Bytes.split?_eq_some_iff]
  rcases Bytes.split? n data with _ | ⟨found, later⟩ <;> simp

theorem read_uint8_eq_ok {short : Nat → ε} {data rest : Bytes} {byte : UInt8} :
    read (uint8 short) data = (.ok byte, rest) ↔ data = byte :: rest := by
  simp only [uint8, read_bind_eq_ok, read_take_eq_ok, read_pure, Prod.mk.injEq, Except.ok.injEq]
  constructor
  · rintro ⟨word, middle, ⟨rfl, hlen⟩, rfl, rfl⟩
    obtain ⟨b, rfl⟩ := List.length_eq_one_iff.1 hlen
    simp [Bytes.toNat]
  · rintro rfl
    exact ⟨[byte], rest, ⟨rfl, rfl⟩, by simp [Bytes.toNat], rfl⟩

theorem read_uint32_eq_ok {short : Nat → ε} {data rest : Bytes} {word : UInt32} :
    read (uint32 short) data = (.ok word, rest) ↔ data = Bytes.ofUInt32 word ++ rest := by
  rw [← Bytes.readUInt32?_eq_some_iff, Bytes.readUInt32?]
  simp only [uint32, read_bind_eq_ok, read_take_eq_ok, read_pure, Prod.mk.injEq, Except.ok.injEq,
    Option.map_eq_some_iff, ← Bytes.split?_eq_some_iff, Prod.exists]

theorem read_uint64_eq_ok {short : Nat → ε} {data rest : Bytes} {word : UInt64} :
    read (uint64 short) data = (.ok word, rest) ↔ data = Bytes.ofUInt64 word ++ rest := by
  rw [← Bytes.readUInt64?_eq_some_iff, Bytes.readUInt64?]
  simp only [uint64, read_bind_eq_ok, read_take_eq_ok, read_pure, Prod.mk.injEq, Except.ok.injEq,
    Option.map_eq_some_iff, ← Bytes.split?_eq_some_iff, Prod.exists]

/-- Values that were read one after another are as many as were asked for, their written forms are
what was taken, and each is what a single read can come to. -/
theorem read_repeated_eq_ok {reader : Reader ε α} {written : α → Bytes} {good : α → Prop}
    (hreader : ∀ {data value rest}, read reader data = (.ok value, rest) →
      data = written value ++ rest ∧ good value) {n : Nat} {data rest : Bytes} {values : List α}
    (h : read (repeated reader n) data = (.ok values, rest)) :
    values.length = n ∧ data = values.flatMap written ++ rest ∧ ∀ value ∈ values, good value := by
  induction n generalizing data values with
  | zero =>
    simp only [repeated, read_pure, Prod.mk.injEq, Except.ok.injEq] at h
    obtain ⟨rfl, rfl⟩ := h
    simp
  | succ n ih =>
    simp only [repeated, read_bind_eq_ok, read_pure, Prod.mk.injEq, Except.ok.injEq] at h
    obtain ⟨value, middle, hvalue, later, _, hlater, rfl, rfl⟩ := h
    obtain ⟨hlen, rfl, hgood⟩ := ih hlater
    obtain ⟨rfl, hfirst⟩ := hreader hvalue
    refine ⟨by rw [List.length_cons, hlen], by rw [List.flatMap_cons, List.append_assoc], ?_⟩
    intro x hx
    rcases List.mem_cons.1 hx with rfl | hx
    · exact hfirst
    · exact hgood x hx

/-! ## Reading back what was written -/

/-- The reader gives back a value in front of whatever follows its written form. -/
def Restores (reader : Reader ε α) (written : Bytes) (value : α) : Prop :=
  ∀ rest, read reader (written ++ rest) = (.ok value, rest)

theorem restores_pure (value : α) : Restores (pure value : Reader ε α) [] value :=
  fun _ => rfl

theorem Restores.bind {reader : Reader ε α} {next : α → Reader ε β} {front back : Bytes}
    {value : α} {result : β} (hfirst : Restores reader front value)
    (hnext : Restores (next value) back result) :
    Restores (reader >>= next) (front ++ back) result := by
  intro rest
  rw [read_bind, List.append_assoc, hfirst]
  exact hnext rest

/-- Once a part is read, what is left decides. -/
theorem Restores.read_bind {reader : Reader ε α} {front : Bytes} {value : α}
    (h : Restores reader front value) (next : α → Reader ε β) (rest : Bytes) :
    read (reader >>= next) (front ++ rest) = read (next value) rest := by
  rw [Reader.read_bind, h]

theorem restores_take {n : Nat} (short : Nat → ε) {front : Bytes} (h : front.length = n) :
    Restores (take n short) front front :=
  fun _ => read_take_eq_ok.2 ⟨rfl, h⟩

theorem restores_uint8 (short : Nat → ε) (byte : UInt8) : Restores (uint8 short) [byte] byte :=
  fun _ => read_uint8_eq_ok.2 rfl

theorem restores_uint32 (short : Nat → ε) (word : UInt32) :
    Restores (uint32 short) (Bytes.ofUInt32 word) word :=
  fun _ => read_uint32_eq_ok.2 rfl

theorem restores_uint64 (short : Nat → ε) (word : UInt64) :
    Restores (uint64 short) (Bytes.ofUInt64 word) word :=
  fun _ => read_uint64_eq_ok.2 rfl

theorem restores_repeated {reader : Reader ε α} {written : α → Bytes} {values : List α}
    (h : ∀ value ∈ values, Restores reader (written value) value) :
    Restores (repeated reader values.length) (values.flatMap written) values := by
  induction values with
  | nil => exact restores_pure []
  | cons value later ih =>
    have hlater := ih fun x hx => h x (List.mem_cons_of_mem _ hx)
    rw [List.flatMap_cons, ← List.append_nil (later.flatMap written)]
    exact (h value List.mem_cons_self).bind (hlater.bind (restores_pure _))

/-! ## Bytes that are cut short -/

/-- On written bytes that are cut short, wherever the cut falls, the reader fails for a reason of
the given kind. -/
def Misses (reader : Reader ε α) (written : Bytes) (reason : ε → Prop) : Prop :=
  ∀ front back, written = front ++ back → back ≠ [] →
    ∃ error, reason error ∧ (read reader front).1 = .error error

variable {reason : ε → Prop}

theorem misses_nil (reader : Reader ε α) (reason : ε → Prop) : Misses reader [] reason := by
  intro front back h hback
  exact absurd (List.append_eq_nil_iff.1 h.symm).2 hback

/-- A cut falls into what the first reader takes, or behind it into what the next one takes. -/
theorem Misses.bind {reader : Reader ε α} {next : α → Reader ε β} {first second : Bytes}
    {value : α} (hfirst : Restores reader first value) (hcut : Misses reader first reason)
    (hnext : Misses (next value) second reason) :
    Misses (reader >>= next) (first ++ second) reason := by
  intro front back h hback
  rcases List.append_eq_append_iff.1 h with ⟨later, rfl, rfl⟩ | ⟨missing, rfl, rfl⟩
  · obtain ⟨error, hreason, hread⟩ := hnext later back rfl hback
    refine ⟨error, hreason, ?_⟩
    rw [read_bind, hfirst]
    exact hread
  · by_cases hmissing : missing = []
    · subst hmissing
      obtain ⟨error, hreason, hread⟩ := hnext [] second rfl (by simpa using hback)
      refine ⟨error, hreason, ?_⟩
      have hwhole := hfirst []
      rw [List.append_nil, List.append_nil] at hwhole
      rw [read_bind, hwhole]
      exact hread
    · obtain ⟨error, hreason, hread⟩ := hcut front missing rfl hmissing
      refine ⟨error, hreason, ?_⟩
      obtain ⟨rest, hfailed⟩ : ∃ rest, read reader front = (.error error, rest) :=
        ⟨_, Prod.ext hread rfl⟩
      rw [read_bind, hfailed]

theorem misses_take {n : Nat} {short : Nat → ε} {written : Bytes} (hlen : written.length = n)
    (hshort : ∀ remaining, remaining < n → reason (short remaining)) :
    Misses (take n short) written reason := by
  rintro front back rfl hback
  have hpos := List.length_pos_iff.2 hback
  rw [List.length_append] at hlen
  refine ⟨short front.length, hshort _ (by omega), ?_⟩
  rw [read_take, Bytes.split?_eq, if_neg (by omega)]

theorem misses_uint8 {short : Nat → ε} (hshort : ∀ remaining, remaining < 1 →
    reason (short remaining)) (byte : UInt8) : Misses (uint8 short) [byte] reason := by
  have hlen : [byte].length = 1 := rfl
  rw [← List.append_nil [byte]]
  exact (misses_take hlen hshort).bind (restores_take short hlen) (misses_nil _ _)

theorem misses_uint32 {short : Nat → ε} (hshort : ∀ remaining, remaining < 4 →
    reason (short remaining)) (word : UInt32) :
    Misses (uint32 short) (Bytes.ofUInt32 word) reason := by
  have hlen := Bytes.length_ofUInt32 word
  rw [← List.append_nil (Bytes.ofUInt32 word)]
  exact (misses_take hlen hshort).bind (restores_take short hlen) (misses_nil _ _)

theorem misses_repeated {reader : Reader ε α} {written : α → Bytes} {values : List α}
    (hrestores : ∀ value ∈ values, Restores reader (written value) value)
    (hmisses : ∀ value ∈ values, Misses reader (written value) reason) :
    Misses (repeated reader values.length) (values.flatMap written) reason := by
  induction values with
  | nil => exact misses_nil _ _
  | cons value later ih =>
    have hlater := ih (fun x hx => hrestores x (List.mem_cons_of_mem _ hx))
      (fun x hx => hmisses x (List.mem_cons_of_mem _ hx))
    have hback := restores_repeated fun x hx => hrestores x (List.mem_cons_of_mem _ hx)
    rw [List.flatMap_cons, ← List.append_nil (later.flatMap written)]
    exact (hmisses value List.mem_cons_self).bind (hrestores value List.mem_cons_self)
      (hlater.bind hback (misses_nil _ _))

end CommitLog.Reader
