import Skydriver.Lib.Json

/-!
# Types written as JSON values

A codec pairs the value that a type is written as with the reading of it, and says what comes back: strings come back
coerced, and a member that is left out comes back as the zero of its type.  A record is put together from its members and
takes no member that it does not name.  Names are matched as they are written.
-/

namespace Json

theorem coercedElements_eq_map (elements : List Value) : coercedElements elements = elements.map coerced := by
  induction elements with
  | nil => rfl
  | cons element rest ih => rw [coercedElements, ih, List.map_cons]

theorem coercedMembers_eq_map (members : List (List UInt8 × Value)) :
    coercedMembers members = members.map fun member => (Utf8.coerce member.1, coerced member.2) := by
  induction members with
  | nil => rfl
  | cons member rest ih => rw [coercedMembers, ih, List.map_cons]

/-- What a missing value or `null` leaves, or else what the value is read as. -/
def readOr {α : Type} (zero : α) (decode : Value → Option α) : Option Value → Option α
  | none => some zero
  | some .null => some zero
  | some value => decode value

/-- A type with its values: what is written reads back as `stored`. -/
structure Codec (α : Type) where
  encode : α → Value
  decode : Value → Option α
  zero : α
  stored : α → α
  read_encode : ∀ value, readOr zero decode (some (coerced (encode value))) = some (stored value)

namespace Codec

variable {α β : Type}

def read (codec : Codec α) (value : Option Value) : Option α := readOr codec.zero codec.decode value

def string : Codec (List UInt8) where
  encode := .string
  decode
    | .string bytes => some bytes
    | _ => none
  zero := []
  stored := Utf8.coerce
  read_encode _ := rfl

def bool : Codec Bool where
  encode := .bool
  decode
    | .bool value => some value
    | _ => none
  zero := false
  stored := id
  read_encode _ := rfl

/-- A number within bounds. -/
def number (zero : α) (toInt : α → Int) (ofInt : Int → Option α) (h : ∀ value, ofInt (toInt value) = some value) :
    Codec α where
  encode value := .number (toInt value)
  decode
    | .number value => ofInt value
    | _ => none
  zero := zero
  stored := id
  read_encode value := h value

def uint64 : Codec UInt64 :=
  number 0 (fun value => value.toNat) (fun value => if 0 ≤ value ∧ value < 2 ^ 64 then some (.ofNat value.toNat) else none)
    fun value => by
      have hvalue := value.toNat_lt
      rw [if_pos (by omega), Int.toNat_natCast, UInt64.ofNat_toNat]

def uint32 : Codec UInt32 :=
  number 0 (fun value => value.toNat) (fun value => if 0 ≤ value ∧ value < 2 ^ 32 then some (.ofNat value.toNat) else none)
    fun value => by
      have hvalue := value.toNat_lt
      rw [if_pos (by omega), Int.toNat_natCast, UInt32.ofNat_toNat]

def int64 : Codec Int64 :=
  number 0 Int64.toInt (fun value => if -2 ^ 63 ≤ value ∧ value < 2 ^ 63 then some (.ofInt value) else none)
    fun value => by
      have hlow := value.le_toInt
      have hhigh := value.toInt_lt
      rw [if_pos (by omega), Int64.ofInt_toInt]

/-- A type whose values are texts. -/
def text (toText : α → List UInt8) (ofText : List UInt8 → α) : Codec α where
  encode value := .string (toText value)
  decode
    | .string bytes => some (ofText bytes)
    | _ => none
  zero := ofText []
  stored value := ofText (Utf8.coerce (toText value))
  read_encode _ := rfl

/-- A slice of which no comparison sees whether it is `nil`. -/
def list (codec : Codec α) : Codec (List α) where
  encode values := .array (values.map codec.encode)
  decode
    | .array elements => elements.mapM fun element => codec.read (some element)
    | _ => none
  zero := []
  stored values := values.map codec.stored
  read_encode values := by
    simp only [coerced, coercedElements_eq_map, List.map_map, readOr]
    induction values with
    | nil => rfl
    | cons value rest ih =>
        have hvalue : codec.read (some (coerced (codec.encode value))) = some (codec.stored value) :=
          codec.read_encode value
        rw [List.map_cons, List.mapM_cons, Function.comp_apply, hvalue, ih]
        rfl

/-- A slice that may be `nil`. -/
def slice (codec : Codec α) : Codec (Option (List α)) where
  encode
    | none => .null
    | some values => codec.list.encode values
  decode value := (codec.list.decode value).map some
  zero := none
  stored values := values.map codec.list.stored
  read_encode
    | none => rfl
    | some values => congrArg (Option.map some) (codec.list.read_encode values)

@[simp] theorem string_stored : string.stored = Utf8.coerce := rfl
@[simp] theorem string_zero : string.zero = [] := rfl
@[simp] theorem bool_stored (value : Bool) : bool.stored value = value := rfl
@[simp] theorem uint64_stored (value : UInt64) : uint64.stored value = value := rfl
@[simp] theorem uint64_zero : uint64.zero = 0 := rfl
@[simp] theorem uint32_stored (value : UInt32) : uint32.stored value = value := rfl
@[simp] theorem uint32_zero : uint32.zero = 0 := rfl
@[simp] theorem int64_stored (value : Int64) : int64.stored value = value := rfl
@[simp] theorem text_stored (toText : α → List UInt8) (ofText : List UInt8 → α) (value : α) :
    (text toText ofText).stored value = ofText (Utf8.coerce (toText value)) := rfl
@[simp] theorem list_stored (codec : Codec α) : codec.list.stored = List.map codec.stored := rfl
@[simp] theorem slice_stored (codec : Codec α) (values : Option (List α)) :
    codec.slice.stored values = values.map fun values => values.map codec.stored := rfl
@[simp] theorem slice_zero (codec : Codec α) : codec.slice.zero = none := rfl

end Codec

/-- The value of the last member of a name. -/
def lookup (name : List UInt8) (members : List (List UInt8 × Value)) : Option Value :=
  (members.reverse.find? fun member => member.1 == name).map (·.2)

theorem lookup_append_of_not_mem {name : List UInt8} (front : List (List UInt8 × Value))
    {back : List (List UInt8 × Value)} (h : ∀ member ∈ back, member.1 ≠ name) :
    lookup name (front ++ back) = lookup name front := by
  have hback : (back.reverse.find? fun member => member.1 == name) = none := by
    simpa using h
  rw [lookup, lookup, List.reverse_append, List.find?_append, hback, Option.none_or]

theorem lookup_append_of_not_mem_left {name : List UInt8} {front : List (List UInt8 × Value)}
    (back : List (List UInt8 × Value)) (h : ∀ member ∈ front, member.1 ≠ name) :
    lookup name (front ++ back) = lookup name back := by
  have hfront : (front.reverse.find? fun member => member.1 == name) = none := by
    simpa using h
  rw [lookup, lookup, List.reverse_append, List.find?_append, hfront, Option.or_none]

/-- Members that are found by their names, whatever other members stand around them. -/
structure Record (ρ : Type) where
  names : List (List UInt8)
  members : ρ → List (List UInt8 × Value)
  read : List (List UInt8 × Value) → Option ρ
  zero : ρ
  stored : ρ → ρ
  coerce_names : ∀ name ∈ names, Utf8.coerce name = name
  members_names : ∀ value, ∀ member ∈ members value, member.1 ∈ names
  read_members : ∀ value found,
    (∀ name ∈ names, lookup name found = lookup name (coercedMembers (members value))) → read found = some (stored value)

namespace Record

variable {α ρ σ : Type}

theorem coercedMembers_names (record : Record ρ) (value : ρ) :
    ∀ member ∈ coercedMembers (record.members value), member.1 ∈ record.names := by
  intro member hmember
  rw [coercedMembers_eq_map] at hmember
  obtain ⟨original, horiginal, rfl⟩ := List.mem_map.mp hmember
  have hname := record.members_names value original horiginal
  rwa [record.coerce_names _ hname]

theorem lookup_coerced {name : List UInt8} (hname : Utf8.coerce name = name) (value : Value) :
    lookup name (coercedMembers [(name, value)]) = some (coerced value) := by
  simp [coercedMembers, lookup, hname]

/-- A member that is left out where `omits` says so. -/
def fieldUnless (omits : α → Bool) (name : List UInt8) (codec : Codec α) (hname : Utf8.coerce name = name := by decide) :
    Record α where
  names := [name]
  members value := if omits value then [] else [(name, codec.encode value)]
  read found := codec.read (lookup name found)
  zero := codec.zero
  stored value := if omits value then codec.zero else codec.stored value
  coerce_names := by simpa using hname
  members_names value := by split_ifs <;> simp
  read_members value found hfound := by
    rw [hfound name (by simp)]
    split_ifs
    · rfl
    · rw [lookup_coerced hname]
      exact codec.read_encode value

/-- A member that is always written. -/
def field (name : List UInt8) (codec : Codec α) (hname : Utf8.coerce name = name := by decide) :
    Record α where
  names := [name]
  members value := [(name, codec.encode value)]
  read found := codec.read (lookup name found)
  zero := codec.zero
  stored := codec.stored
  coerce_names := by simpa using hname
  members_names value := by simp
  read_members value found hfound := by
    rw [hfound name (by simp), lookup_coerced hname]
    exact codec.read_encode value

/-- The members of two records that share no name. -/
def both (front : Record ρ) (back : Record σ)
    (hnames : ∀ name ∈ front.names, name ∉ back.names := by decide) : Record (ρ × σ) where
  names := front.names ++ back.names
  members value := front.members value.1 ++ back.members value.2
  read found := do
    let first ← front.read found
    let second ← back.read found
    some (first, second)
  zero := (front.zero, back.zero)
  stored value := (front.stored value.1, back.stored value.2)
  coerce_names name hname := by
    rcases List.mem_append.mp hname with hname | hname
    · exact front.coerce_names name hname
    · exact back.coerce_names name hname
  members_names value member hmember := by
    rcases List.mem_append.mp hmember with hmember | hmember
    · exact List.mem_append_left _ (front.members_names value.1 member hmember)
    · exact List.mem_append_right _ (back.members_names value.2 member hmember)
  read_members value found hfound := by
    have hsplit : coercedMembers (front.members value.1 ++ back.members value.2) =
        coercedMembers (front.members value.1) ++ coercedMembers (back.members value.2) := by
      simp only [coercedMembers_eq_map, List.map_append]
    have hfront : front.read found = some (front.stored value.1) := by
      refine front.read_members value.1 found fun name hname => ?_
      rw [hfound name (List.mem_append_left _ hname), hsplit]
      refine lookup_append_of_not_mem _ fun member hmember hsame => ?_
      exact hnames name hname (hsame ▸ back.coercedMembers_names value.2 member hmember)
    have hback : back.read found = some (back.stored value.2) := by
      refine back.read_members value.2 found fun name hname => ?_
      rw [hfound name (List.mem_append_right _ hname), hsplit]
      refine lookup_append_of_not_mem_left _ fun member hmember hsame => ?_
      exact hnames name (hsame ▸ front.coercedMembers_names value.1 member hmember) hname
    rw [hfront, hback]
    rfl

/-- The members of a structure. -/
def map (toTuple : σ → ρ) (ofTuple : ρ → σ) (record : Record ρ) : Record σ where
  names := record.names
  members value := record.members (toTuple value)
  read found := (record.read found).map ofTuple
  zero := ofTuple record.zero
  stored value := ofTuple (record.stored (toTuple value))
  coerce_names := record.coerce_names
  members_names value := record.members_names (toTuple value)
  read_members value found hfound := by
    rw [record.read_members (toTuple value) found hfound]
    rfl

/-- An object takes the members of its record and no other. -/
def decode (record : Record ρ) : Value → Option ρ
  | .object members => if members.all (fun member => record.names.contains member.1) then record.read members else none
  | _ => none

theorem decode_members (record : Record ρ) (value : ρ) :
    record.decode (coerced (.object (record.members value))) = some (record.stored value) := by
  have hknown : (coercedMembers (record.members value)).all (fun member => record.names.contains member.1) = true := by
    rw [List.all_eq_true]
    intro member hmember
    simpa using record.coercedMembers_names value member hmember
  rw [coerced, decode, if_pos hknown]
  exact record.read_members value _ fun _ _ => rfl

def codec (record : Record ρ) : Codec ρ where
  encode value := .object (record.members value)
  decode := record.decode
  zero := record.zero
  stored := record.stored
  read_encode := record.decode_members

/-- A pointer to a structure. -/
def pointer (record : Record ρ) : Codec (Option ρ) where
  encode
    | none => .null
    | some value => .object (record.members value)
  decode value := (record.decode value).map some
  zero := none
  stored := Option.map record.stored
  read_encode
    | none => rfl
    | some value => congrArg (Option.map some) (record.decode_members value)

@[simp] theorem field_stored (name : List UInt8) (codec : Codec α) (hname : Utf8.coerce name = name) (value : α) :
    (field name codec hname).stored value = codec.stored value := rfl
@[simp] theorem fieldUnless_stored (omits : α → Bool) (name : List UInt8) (codec : Codec α)
    (hname : Utf8.coerce name = name) (value : α) :
    (fieldUnless omits name codec hname).stored value = if omits value then codec.zero else codec.stored value := rfl
@[simp] theorem both_stored (front : Record ρ) (back : Record σ) (hnames : ∀ name ∈ front.names, name ∉ back.names)
    (value : ρ × σ) : (both front back hnames).stored value = (front.stored value.1, back.stored value.2) := rfl
@[simp] theorem map_stored (toTuple : σ → ρ) (ofTuple : ρ → σ) (record : Record ρ) (value : σ) :
    (map toTuple ofTuple record).stored value = ofTuple (record.stored (toTuple value)) := rfl
@[simp] theorem codec_stored (record : Record ρ) : record.codec.stored = record.stored := rfl
@[simp] theorem pointer_stored (record : Record ρ) (value : Option ρ) :
    record.pointer.stored value = value.map record.stored := rfl
@[simp] theorem pointer_zero (record : Record ρ) : record.pointer.zero = none := rfl

end Record

end Json
