import Skydriver.Lib.Checked

/-!
# Memory blocks and byte sources

A block of memory holds at most `maximumAllocation` bytes, and asking for a larger one does not return: the call ends
in a panic.  A reader delivers its bytes in pieces of sizes of its own choice, never empty before the end of the data;
`readExact` fills a buffer from as many pieces as it takes and does not depend on their sizes.
-/

/-- How a call ends when it does not return a value. -/
inductive Fault (ε : Type) where
  | reported (error : ε)
  | panicked
deriving DecidableEq

/-- The most bytes that one block of memory holds: the largest signed 64-bit integer. -/
def maximumAllocation : Nat := 2 ^ 63 - 1

/-- The bytes of one block of memory. -/
@[ext] structure Slice where
  bytes : List UInt8
  bounded : bytes.length ≤ maximumAllocation
deriving DecidableEq

namespace Slice

def length (slice : Slice) : Nat := slice.bytes.length

theorem length_lt (slice : Slice) : slice.length < 2 ^ 64 :=
  lt_of_le_of_lt slice.bounded (by decide)

end Slice

namespace Fault

variable {ε α : Type}

/-- A result whose errors are reported to the caller. -/
def reporting : Except ε α → Except (Fault ε) α
  | .ok value => .ok value
  | .error error => .error (.reported error)

@[simp] theorem reporting_eq_ok {result : Except ε α} {value : α} :
    reporting result = .ok value ↔ result = .ok value := by
  cases result <;> simp [reporting]

@[simp] theorem reporting_ok (value : α) : reporting (.ok value : Except ε α) = .ok value := rfl

@[simp] theorem reporting_error (error : ε) : reporting (.error error : Except ε α) = .error (.reported error) := rfl

/-- Room for `size` bytes. -/
def allocate (size : Nat) : Except (Fault ε) Unit := ensure .panicked (size ≤ maximumAllocation)

/-- A finished vector. -/
def collect (bytes : List UInt8) : Except (Fault ε) Slice :=
  if h : bytes.length ≤ maximumAllocation then .ok ⟨bytes, h⟩ else .error .panicked

@[simp] theorem collect_eq_ok {bytes : List UInt8} {slice : Slice} :
    (collect bytes : Except (Fault ε) Slice) = .ok slice ↔ bytes = slice.bytes := by
  unfold collect
  split_ifs with h
  · rw [Except.ok.injEq, Slice.ext_iff]
  · refine ⟨fun heq => by simp at heq, fun heq => absurd slice.bounded ?_⟩
    rwa [← heq]

/-- The subslice of `length` bytes at `offset`. -/
def subslice (bytes : List UInt8) (offset length : Nat) : Except (Fault ε) (List UInt8) := do
  ensure .panicked (offset + length ≤ bytes.length)
  .ok ((bytes.drop offset).take length)

theorem subslice_eq_ok {bytes piece : List UInt8} {offset length : Nat} :
    (subslice bytes offset length : Except (Fault ε) (List UInt8)) = .ok piece ↔
      offset + length ≤ bytes.length ∧ (bytes.drop offset).take length = piece := by
  simp [subslice]

end Fault

/-- A source of bytes; call number `n` delivers at most `offer n + 1` of them. -/
structure Reader where
  data : List UInt8
  calls : Nat
  offer : Nat → Nat

namespace Reader

/-- One call with a buffer of `room` bytes; the piece is empty only for an empty buffer or at the end of the data. -/
def read (reader : Reader) (room : Nat) : List UInt8 × Reader :=
  let count := min room (reader.offer reader.calls + 1)
  (reader.data.take count, { reader with data := reader.data.drop count, calls := reader.calls + 1 })

theorem read_fst_append_data (reader : Reader) (room : Nat) :
    (reader.read room).1 ++ (reader.read room).2.data = reader.data := List.take_append_drop _ _

theorem read_fst_length_le (reader : Reader) (room : Nat) : (reader.read room).1.length ≤ room := by
  simp only [read, List.length_take]
  omega

theorem read_fst_eq_nil {reader : Reader} {room : Nat} (hroom : room ≠ 0) :
    (reader.read room).1 = [] ↔ reader.data = [] := by
  have hcount : min room (reader.offer reader.calls + 1) ≠ 0 := by omega
  rw [read, List.take_eq_nil_iff]
  exact or_iff_right hcount

/-- Fill a buffer of `room` bytes; an empty piece before it is full is an unexpected end. -/
def readExact (reader : Reader) (room : Nat) : Option (List UInt8 × Reader) :=
  if _hroom : room = 0 then some ([], reader)
  else if _hpiece : (reader.read room).1 = [] then none
  else
    (readExact (reader.read room).2 (room - (reader.read room).1.length)).map fun (more, rest) =>
      ((reader.read room).1 ++ more, rest)
termination_by room
decreasing_by
  have hpos := List.length_pos_iff.mpr _hpiece
  exact Nat.sub_lt (Nat.pos_of_ne_zero _hroom) hpos

/-- Whatever the pieces, a full buffer holds the next bytes and the reader stands behind them. -/
theorem readExact_of_le {reader : Reader} {room : Nat} (h : room ≤ reader.data.length) :
    ∃ rest, reader.readExact room = some (reader.data.take room, rest) ∧ rest.data = reader.data.drop room := by
  induction hsteps : room using Nat.strongRecOn generalizing reader room with
  | ind steps ih =>
      subst hsteps
      rw [readExact]
      split_ifs with hroom hpiece
      · exact ⟨reader, by simp [hroom], by simp [hroom]⟩
      · rw [(read_fst_eq_nil hroom).mp hpiece, List.length_nil] at h
        omega
      · have hsplit := reader.read_fst_append_data room
        have hle := reader.read_fst_length_le room
        have hlength := congrArg List.length hsplit
        rw [List.length_append] at hlength
        have hpos := List.length_pos_iff.mpr hpiece
        have hnext : room - (reader.read room).1.length ≤ (reader.read room).2.data.length := by omega
        obtain ⟨rest, hrest, hdata⟩ := ih _ (by omega) hnext rfl
        refine ⟨rest, ?_, ?_⟩
        · rw [hrest, Option.map_some, ← hsplit, List.take_append, List.take_of_length_le hle]
        · rw [hdata, ← hsplit, List.drop_append, List.drop_of_length_le hle, List.nil_append]

/-- Too little data is an unexpected end. -/
theorem readExact_of_lt {reader : Reader} {room : Nat} (h : reader.data.length < room) :
    reader.readExact room = none := by
  induction hsteps : room using Nat.strongRecOn generalizing reader room with
  | ind steps ih =>
      subst hsteps
      rw [readExact, dif_neg (by omega)]
      split_ifs with hpiece
      · rfl
      · have hlength := congrArg List.length (reader.read_fst_append_data room)
        rw [List.length_append] at hlength
        have hpos := List.length_pos_iff.mpr hpiece
        have hnext : (reader.read room).2.data.length < room - (reader.read room).1.length := by omega
        rw [ih _ (by omega) hnext rfl, Option.map_none]

end Reader
