import Qtum.Library.Abort

/-! Decoders of byte strings, the reading half of a serialization format. A
decoder takes the value it reads off the front of the input: it rejects the
input (a stream that throws while reading) with `.ok none`, ends with
`.error` where reading it is undefined, and otherwise returns the value and
what remains. Decoders form a monad, so a format's reader is written as the
sequence of reads its `Unserialize` makes.

`RoundTrip decode encode P` says that `decode` reads back every value
satisfying `P` from its encoding, whatever follows it; the rules below
compose round trips along `bind`, `map` and counted repetition, which is how
the round trip of a record follows from those of its fields.
`Canonical decode encode` is the other direction: an input that `decode`
reads a value from starts with that value's encoding. -/

/-- A reader of values of `α` from the front of a byte string. -/
def Decoder (α : Type) : Type := List UInt8 → Except Abort (Option (α × List UInt8))

namespace Decoder

variable {α β γ : Type}

protected def pure (value : α) : Decoder α := fun input => .ok (some (value,input))

protected def bind (first : Decoder α) (next : α → Decoder β) : Decoder β := fun input =>
  match first input with
  | .error failure => .error failure
  | .ok none => .ok none
  | .ok (some (value,rest)) => next value rest

instance : Monad Decoder where
  pure := Decoder.pure
  bind := Decoder.bind

/-- The input is rejected: the stream throws. -/
def fail : Decoder α := fun _ => .ok none

/-- Reading is undefined. -/
def abort (failure : Abort) : Decoder α := fun _ => .error failure

/-- One byte, `ser_readdata8`. -/
def byte : Decoder UInt8
  | [] => .ok none
  | head :: rest => .ok (some (head,rest))

/-- `count` raw bytes, as `CFlatData` reads them. -/
def bytes (count : Nat) : Decoder (List UInt8) := fun input =>
  if count ≤ input.length then .ok (some (input.take count,input.drop count)) else .ok none

/-- `count` values read one after the other. -/
def replicate (read : Decoder α) : Nat → Decoder (List α)
  | 0 => Decoder.pure []
  | count + 1 => Decoder.bind read fun head => Decoder.bind (replicate read count) fun tail =>
      Decoder.pure (head :: tail)

@[simp] theorem pure_apply (value : α) (input : List UInt8) :
    (pure value : Decoder α) input = .ok (some (value,input)) := rfl

theorem bind_apply (first : Decoder α) (next : α → Decoder β) (input : List UInt8) :
    (first >>= next) input = match first input with
      | .error failure => .error failure
      | .ok none => .ok none
      | .ok (some (value,rest)) => next value rest := rfl

/-- A decoder chosen by a test reads as the one chosen. -/
theorem ite_apply {test : Prop} [Decidable test] (yes no : Decoder α) (input : List UInt8) :
    (if test then yes else no) input = if test then yes input else no input := by
  split <;> rfl

theorem bind_apply_of_some {first : Decoder α} {next : α → Decoder β} {input rest : List UInt8}
    {value : α} (read : first input = .ok (some (value,rest))) :
    (first >>= next) input = next value rest := by
  rw [bind_apply,read]

@[simp] theorem map_apply (f : α → β) (read : Decoder α) (input : List UInt8) :
    (f <$> read) input = (read >>= fun value => pure (f value)) input := rfl

@[simp] theorem fail_apply (input : List UInt8) : (fail : Decoder α) input = .ok none := rfl

@[simp] theorem byte_cons (head : UInt8) (rest : List UInt8) :
    byte (head :: rest) = .ok (some (head,rest)) := rfl

theorem bytes_append {count : Nat} {data : List UInt8} (length : data.length = count)
    (rest : List UInt8) : bytes count (data ++ rest) = .ok (some (data,rest)) := by
  subst length
  simp [bytes]

/-- A chain of reads is rejected where its first read is. -/
theorem bind_none {first : Decoder α} {next : α → Decoder β} {input : List UInt8}
    (rejected : first input = .ok none) : (first >>= next) input = .ok none := by
  rw [bind_apply,rejected]

/-- A chain of reads that returns: its first read returned, and the rest
returned from where the first stopped. -/
theorem bind_some {first : Decoder α} {next : α → Decoder β} {input rest : List UInt8} {result : β}
    (read : (first >>= next) input = .ok (some (result,rest))) :
    ∃ value middle, first input = .ok (some (value,middle)) ∧ next value middle = .ok (some (result,rest)) := by
  rw [bind_apply] at read
  split at read
  · cases read
  · cases read
  · exact ⟨_,_,by assumption,read⟩

theorem pure_some {value result : α} {input rest : List UInt8}
    (read : (pure value : Decoder α) input = .ok (some (result,rest))) : result = value ∧ rest = input := by
  cases read
  exact ⟨rfl,rfl⟩

theorem byte_some {input rest : List UInt8} {value : UInt8} (read : byte input = .ok (some (value,rest))) :
    input = value :: rest := by
  cases input with
  | nil => cases read
  | cons head tail => cases read; rfl

theorem bytes_some {count : Nat} {input rest data : List UInt8}
    (read : bytes count input = .ok (some (data,rest))) : data.length = count ∧ input = data ++ rest := by
  unfold bytes at read
  split at read
  · cases read
    exact ⟨by simp; omega,(List.take_append_drop count input).symm⟩
  · cases read

/-- `read` takes back every value satisfying `P` from its encoding, whatever
bytes follow it. -/
def RoundTrip (read : Decoder α) (encode : α → List UInt8) (P : α → Prop) : Prop :=
  ∀ value, P value → ∀ rest, read (encode value ++ rest) = .ok (some (value,rest))

namespace RoundTrip

/-- Reading two encodings one after the other: the second read may depend on
the first value, as a length or a tag does. -/
theorem bind {first : Decoder α} {encodeFirst : α → List UInt8} {P : α → Prop} {next : α → Decoder β}
    {encodeNext : α → β → List UInt8} {Q : α → β → Prop} (firstTrip : RoundTrip first encodeFirst P)
    (nextTrip : ∀ value, P value → RoundTrip (next value) (encodeNext value) (Q value))
    {value : α} {result : β} (holds : P value) (holdsNext : Q value result) (rest : List UInt8) :
    (first >>= next) (encodeFirst value ++ encodeNext value result ++ rest) = .ok (some (result,rest)) := by
  rw [List.append_assoc,bind_apply_of_some (firstTrip value holds _)]
  exact nextTrip value holds result holdsNext rest

theorem replicate {read : Decoder α} {encode : α → List UInt8} {P : α → Prop}
    (trip : RoundTrip read encode P) :
    RoundTrip (Decoder.replicate read n) (fun values => (values.map encode).flatten)
      (fun values => values.length = n ∧ ∀ value ∈ values, P value) := by
  induction n with
  | zero =>
    rintro values ⟨length,-⟩ rest
    rw [List.length_eq_zero_iff.mp length]
    rfl
  | succ count induct =>
    rintro values ⟨length,holds⟩ rest
    obtain ⟨head,tail,rfl⟩ := List.exists_cons_of_length_eq_add_one length
    have tailTrip := induct tail ⟨by simpa using length,fun value mem => holds value (by simp [mem])⟩ rest
    have headRead := trip head (holds head (by simp)) ((tail.map encode).flatten ++ rest)
    simp only [List.map_cons,List.flatten_cons,List.append_assoc]
    change Decoder.bind _ _ _ = _
    rw [Decoder.bind,headRead]
    change Decoder.bind _ _ _ = _
    rw [Decoder.bind,tailTrip]
    rfl

end RoundTrip

/-- `read` accepts only encodings: an input it reads a value from is the
encoding of the value followed by what it leaves. -/
def Canonical (read : Decoder α) (encode : α → List UInt8) : Prop :=
  ∀ input value rest, read input = .ok (some (value,rest)) → input = encode value ++ rest

/-- Counted repetition reads as many values as it counts, each from its encoding. -/
theorem Canonical.replicate {read : Decoder α} {encode : α → List UInt8} (canonical : Canonical read encode) :
    ∀ (count : Nat) (input : List UInt8) (values : List α) (rest : List UInt8),
      Decoder.replicate read count input = .ok (some (values,rest)) →
        values.length = count ∧ input = (values.map encode).flatten ++ rest
  | 0, input, values, rest, read => by
    obtain ⟨rfl,rfl⟩ := pure_some read
    exact ⟨rfl,rfl⟩
  | count + 1, input, values, rest, read => by
    obtain ⟨head,middle,headRead,tailRead⟩ := bind_some read
    obtain ⟨tail,after,tailRead,built⟩ := bind_some tailRead
    obtain ⟨listed,left⟩ := pure_some built
    subst listed left
    obtain ⟨length,tailInput⟩ := Canonical.replicate canonical count middle tail rest tailRead
    refine ⟨by simp [length],?_⟩
    rw [canonical input head middle headRead,tailInput]
    simp

end Decoder
