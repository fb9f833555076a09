import NdnExt.Lib.LittleEndian

/-! Little-endian reads and writes over byte buffers. A reader is its unread bytes: an accessor
that fails leaves them as they were, but what was read before it stays read. -/

namespace NdnExt.Nan

open NdnExt.Lib

abbrev Bytes := List UInt8

/-- A field `[u8; 6]`: a MAC address, a cluster id, a service id. -/
abbrev Mac := Vector UInt8 6

abbrev ServiceId := Vector UInt8 6

inductive WireError where
  | truncated
  | invalid
  deriving DecidableEq, Repr

def Reader (α : Type) := Bytes → Except WireError α × Bytes

variable {n : Nat} {α : Type}

@[simp] theorem toArray_toList (array : Vector UInt8 n) :
    array.toList.toArray = array.toArray := rfl

namespace Reader

instance : Monad Reader where
  pure value := fun unread => (.ok value, unread)
  bind read next := fun unread =>
    match read unread with
    | (.ok value, rest) => next value rest
    | (.error error, rest) => (.error error, rest)

def fail {α : Type} (error : WireError) : Reader α := fun unread => (.error error, unread)

def ofExcept {α : Type} (result : Except WireError α) : Reader α := fun unread => (result, unread)

/-- The not-yet-consumed tail, without advancing. -/
def rest : Reader Bytes := fun unread => (.ok unread, unread)

def take (n : Nat) : Reader Bytes := fun unread =>
  if unread.length < n then (.error .truncated, unread)
  else (.ok (unread.take n), unread.drop n)

def takeArray (n : Nat) : Reader (Vector UInt8 n) := fun unread =>
  if enough : n ≤ unread.length then
    (.ok ⟨(unread.take n).toArray, by simp [enough]⟩, unread.drop n)
  else (.error .truncated, unread)

def u8 : Reader UInt8 := fun unread =>
  match unread with
  | [] => (.error .truncated, [])
  | b :: rest => (.ok b, rest)

def le16 : Reader UInt16 := do
  let b ← take 2
  return UInt16.ofNat (ofLe b)

def le32 : Reader UInt32 := do
  let b ← take 4
  return UInt32.ofNat (ofLe b)

def le64 : Reader UInt64 := do
  let b ← take 8
  return UInt64.ofNat (ofLe b)

/-- What a reader started at `buf` returns. -/
def run {α : Type} (read : Reader α) (buf : Bytes) : Except WireError α := (read buf).1

/-- A reader that never returns a value without reading. -/
structure Consuming (α : Type) where
  read : Reader α
  shorter : ∀ {unread rest value}, read unread = (.ok value, rest) → rest.length < unread.length

/-- The loop `while !r.is_empty()`. -/
def untilEmpty {α : Type} (item : Consuming α) : Reader (List α) := fun unread =>
  if unread = [] then (.ok [], [])
  else
    match _read : item.read unread with
    | (.ok value, rest) =>
      match untilEmpty item rest with
      | (.ok values, rest) => (.ok (value :: values), rest)
      | (.error error, rest) => (.error error, rest)
    | (.error error, rest) => (.error error, rest)
termination_by unread => unread.length
decreasing_by exact item.shorter _read

@[simp] theorem pure_apply (value : α) (unread : Bytes) :
    (pure value : Reader α) unread = (.ok value, unread) := rfl

@[simp] theorem bind_apply {β : Type} (read : Reader α) (next : α → Reader β)
    (unread : Bytes) :
    (read >>= next) unread =
      match read unread with
      | (.ok value, rest) => next value rest
      | (.error error, rest) => (.error error, rest) := rfl

@[simp] theorem fail_apply (error : WireError) (unread : Bytes) :
    (fail error : Reader α) unread = (.error error, unread) := rfl

@[simp] theorem ofExcept_apply (result : Except WireError α) (unread : Bytes) :
    ofExcept result unread = (result, unread) := rfl

@[simp] theorem rest_apply (unread : Bytes) : rest unread = (.ok unread, unread) := rfl

@[simp] theorem u8_cons (b : UInt8) (rest : Bytes) : u8 (b :: rest) = (.ok b, rest) := rfl

theorem take_append {taken : Bytes} (exact' : taken.length = n) (rest : Bytes) :
    take n (taken ++ rest) = (.ok taken, rest) := by
  have enough : ¬ (taken ++ rest).length < n := by
    rw [List.length_append]
    omega
  rw [take, if_neg enough, ← exact', List.take_left, List.drop_left]

@[simp] theorem takeArray_append (array : Vector UInt8 n) (rest : Bytes) :
    takeArray n (array.toList ++ rest) = (.ok array, rest) := by
  have enough : n ≤ (array.toList ++ rest).length := by simp
  have front : (array.toList ++ rest).take n = array.toList :=
    List.take_left' array.length_toList
  have back : (array.toList ++ rest).drop n = rest := List.drop_left' array.length_toList
  rw [takeArray, dif_pos enough, back]
  simp only [front]
  rfl

@[simp] theorem takeArray_toList (array : Vector UInt8 n) :
    takeArray n array.toList = (.ok array, []) := by
  simpa using takeArray_append array []

theorem takeArray_shorter (positive : 0 < n) {unread rest : Bytes}
    {value : Vector UInt8 n} (read : takeArray n unread = (.ok value, rest)) :
    rest.length < unread.length := by
  rw [takeArray] at read
  split at read
  · cases read
    rw [List.length_drop]
    omega
  · cases read

end Reader

def putLe16 (v : UInt16) : Bytes := leBytes 2 v.toNat

def putLe32 (v : UInt32) : Bytes := leBytes 4 v.toNat

def putLe64 (v : UInt64) : Bytes := leBytes 8 v.toNat

@[simp] theorem length_putLe16 (v : UInt16) : (putLe16 v).length = 2 := length_leBytes 2 _

@[simp] theorem length_putLe32 (v : UInt32) : (putLe32 v).length = 4 := length_leBytes 4 _

@[simp] theorem length_putLe64 (v : UInt64) : (putLe64 v).length = 8 := length_leBytes 8 _

namespace Reader

@[simp] theorem le16_append (v : UInt16) (rest : Bytes) :
    le16 (putLe16 v ++ rest) = (.ok v, rest) := by
  have value : ofLe (putLe16 v) = v.toNat := ofLe_leBytes v.toNat_lt
  simp [le16, take_append (length_putLe16 v), value]

@[simp] theorem le32_append (v : UInt32) (rest : Bytes) :
    le32 (putLe32 v ++ rest) = (.ok v, rest) := by
  have value : ofLe (putLe32 v) = v.toNat := ofLe_leBytes v.toNat_lt
  simp [le32, take_append (length_putLe32 v), value]

@[simp] theorem le64_append (v : UInt64) (rest : Bytes) :
    le64 (putLe64 v ++ rest) = (.ok v, rest) := by
  have value : ofLe (putLe64 v) = v.toNat := ofLe_leBytes v.toNat_lt
  simp [le64, take_append (length_putLe64 v), value]

@[simp] theorem le16_putLe16 (v : UInt16) : le16 (putLe16 v) = (.ok v, []) := by
  simpa using le16_append v []

@[simp] theorem le32_putLe32 (v : UInt32) : le32 (putLe32 v) = (.ok v, []) := by
  simpa using le32_append v []

/-- Items that each read back as written, one after the other, are read back as a list. -/
theorem untilEmpty_flatMap (item : Consuming α) (written : α → Bytes)
    {values : List α}
    (back : ∀ value ∈ values, ∀ rest, item.read (written value ++ rest) = (.ok value, rest)) :
    untilEmpty item (values.flatMap written) = (.ok values, []) := by
  induction values with
  | nil => rw [List.flatMap_nil, untilEmpty, if_pos rfl]
  | cons value values ih =>
    rw [List.forall_mem_cons] at back
    have read := back.1 (values.flatMap written)
    have nonempty : written value ++ values.flatMap written ≠ [] := by
      intro none
      have shorter := item.shorter read
      rw [none] at shorter
      exact Nat.not_lt_zero _ shorter
    rw [List.flatMap_cons, untilEmpty, if_neg nonempty]
    split
    · next value' rest same =>
      rw [read] at same
      cases same
      rw [ih back.2]
    · next error rest same =>
      rw [read] at same
      cases same

end Reader

end NdnExt.Nan
