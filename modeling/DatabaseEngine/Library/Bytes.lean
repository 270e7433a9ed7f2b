import Mathlib.Logic.Function.Basic

/-!
# `DatabaseEngine.Library.Bytes`: little-endian fields in a block of bytes

A block is a function from offsets to bytes. `putBytesAt` stores a list of bytes from an
offset on and `bytesAt` reads one back; `putU32At` and `u32At` do the same for a 32-bit field,
least significant byte first. The lemmas say that a read sees the last write at its place,
and that writes elsewhere do not concern it.

`HoldsAt` says which bytes lie at an offset. `holdsAt_append` takes a run of fields apart, one after
another, as a reader does.
-/

set_option autoImplicit false

namespace Library

/-- The four bytes of a 32-bit field, least significant first. -/
def le32 (value : UInt32) : List UInt8 :=
  [UInt8.ofNat value.toNat, UInt8.ofNat (value.toNat / 256), UInt8.ofNat (value.toNat / 65536),
    UInt8.ofNat (value.toNat / 16777216)]

/-- The field that four bytes make. -/
def ofLe32 (b0 b1 b2 b3 : UInt8) : UInt32 :=
  UInt32.ofNat (b0.toNat + 256 * b1.toNat + 65536 * b2.toNat + 16777216 * b3.toNat)

/-- What holds of the bytes by number holds of every byte. -/
theorem forall_byte {P : UInt8 → Prop} (h : ∀ n : Fin 256, P (UInt8.ofFin n)) (c : UInt8) : P c :=
  h c.toFin

/-- A word is four bytes. -/
@[simp] theorem le32_length (value : UInt32) : (le32 value).length = 4 := rfl

/-- The four bytes of a word give it back. -/
theorem ofLe32_le32 (value : UInt32) :
    ofLe32 (UInt8.ofNat value.toNat) (UInt8.ofNat (value.toNat / 256))
      (UInt8.ofNat (value.toNat / 65536)) (UInt8.ofNat (value.toNat / 16777216)) = value := by
  have hlt := value.toNat_lt
  apply UInt32.toNat_inj.mp
  simp only [ofLe32, UInt32.toNat_ofNat', UInt8.toNat_ofNat']
  omega

/-- A block with bytes stored from an offset on. -/
def putBytesAt (block : Nat → UInt8) (offset : Nat) (bytes : List UInt8) : Nat → UInt8 :=
  fun i => if offset ≤ i then (bytes[i - offset]?).getD (block i) else block i

/-- The bytes of a block from an offset on. -/
def bytesAt (block : Nat → UInt8) (offset length : Nat) : List UInt8 :=
  (List.range length).map fun i => block (offset + i)

/-- A 32-bit field of a block. -/
def u32At (block : Nat → UInt8) (offset : Nat) : UInt32 :=
  ofLe32 (block offset) (block (offset + 1)) (block (offset + 2)) (block (offset + 3))

/-- A block with a 32-bit field stored. -/
def putU32At (block : Nat → UInt8) (offset : Nat) (value : UInt32) : Nat → UInt8 :=
  putBytesAt block offset (le32 value)

/-- Inside the write are the bytes that were written. -/
theorem putBytesAt_inside {block : Nat → UInt8} {offset i : Nat} {bytes : List UInt8}
    (hlow : offset ≤ i) (hhigh : i < offset + bytes.length) :
    putBytesAt block offset bytes i = bytes[i - offset] := by
  have hlt : i - offset < bytes.length := by omega
  simp [putBytesAt, hlow, hlt]

/-- Outside the write nothing has changed. -/
theorem putBytesAt_outside {block : Nat → UInt8} {offset i : Nat} {bytes : List UInt8}
    (h : i < offset ∨ offset + bytes.length ≤ i) : putBytesAt block offset bytes i = block i := by
  unfold putBytesAt
  split
  · rw [List.getElem?_eq_none (by omega)]
    rfl
  · rfl

/-- As many bytes are read as were asked for. -/
@[simp] theorem bytesAt_length (block : Nat → UInt8) (offset length : Nat) :
    (bytesAt block offset length).length = length := by simp [bytesAt]

/-- What was written is read back. -/
@[simp] theorem bytesAt_putBytesAt (block : Nat → UInt8) (offset : Nat) (bytes : List UInt8) :
    bytesAt (putBytesAt block offset bytes) offset bytes.length = bytes := by
  apply List.ext_getElem
  · simp
  · intro i h₁ h₂
    simp only [bytesAt, List.getElem_map, List.getElem_range]
    rw [putBytesAt_inside (by omega) (by omega)]
    simp

/-- A read that a write does not reach. -/
theorem bytesAt_putBytesAt_disjoint {block : Nat → UInt8} {offset start length : Nat}
    {bytes : List UInt8} (h : start + length ≤ offset ∨ offset + bytes.length ≤ start) :
    bytesAt (putBytesAt block offset bytes) start length = bytesAt block start length := by
  apply List.map_congr_left
  intro i hi
  have := List.mem_range.mp hi
  exact putBytesAt_outside (by omega)

/-- A word beside the write is unchanged. -/
theorem u32At_putBytesAt_disjoint {block : Nat → UInt8} {offset start : Nat} {bytes : List UInt8}
    (h : start + 4 ≤ offset ∨ offset + bytes.length ≤ start) :
    u32At (putBytesAt block offset bytes) start = u32At block start := by
  unfold u32At
  rw [putBytesAt_outside (by omega), putBytesAt_outside (by omega),
    putBytesAt_outside (by omega), putBytesAt_outside (by omega)]

/-- A word that was written is read back. -/
@[simp] theorem u32At_putU32At (block : Nat → UInt8) (offset : Nat) (value : UInt32) :
    u32At (putU32At block offset value) offset = value := by
  have hlen := le32_length value
  unfold u32At putU32At
  rw [putBytesAt_inside (by omega) (by omega), putBytesAt_inside (by omega) (by omega),
    putBytesAt_inside (by omega) (by omega), putBytesAt_inside (by omega) (by omega)]
  simp only [Nat.sub_self, Nat.add_sub_cancel_left, le32]
  exact ofLe32_le32 value

/-- A word beside another that was written is unchanged. -/
theorem u32At_putU32At_disjoint {block : Nat → UInt8} {offset start : Nat} {value : UInt32}
    (h : start + 4 ≤ offset ∨ offset + 4 ≤ start) :
    u32At (putU32At block offset value) start = u32At block start :=
  u32At_putBytesAt_disjoint h

/-- Bytes beside a word that was written are unchanged. -/
theorem bytesAt_putU32At_disjoint {block : Nat → UInt8} {offset start length : Nat}
    {value : UInt32} (h : start + length ≤ offset ∨ offset + 4 ≤ start) :
    bytesAt (putU32At block offset value) start length = bytesAt block start length :=
  bytesAt_putBytesAt_disjoint h

/-! ### What lies at an offset -/

/-- The bytes of a block from an offset on begin with these. -/
def HoldsAt (block : Nat → UInt8) (offset : Nat) (bytes : List UInt8) : Prop :=
  ∀ k, (h : k < bytes.length) → block (offset + k) = bytes[k]

section
variable {block block' : Nat → UInt8} {offset : Nat} {bytes : List UInt8}

/-- No bytes are held anywhere. -/
theorem holdsAt_nil : HoldsAt block offset [] := fun _ h => absurd h (Nat.not_lt_zero _)

/-- The first byte, and the others behind it. -/
theorem holdsAt_cons {c : UInt8} :
    HoldsAt block offset (c :: bytes) ↔ block offset = c ∧ HoldsAt block (offset + 1) bytes := by
  constructor
  · intro h
    refine ⟨h 0 (Nat.succ_pos _), fun k hk => ?_⟩
    have hnext := h (k + 1) (Nat.succ_lt_succ hk)
    rwa [← Nat.add_assoc, Nat.add_right_comm] at hnext
  · rintro ⟨hfirst, hrest⟩ k hk
    cases k with
    | zero => exact hfirst
    | succ k =>
      have hnext := hrest k (Nat.lt_of_succ_lt_succ hk)
      rwa [Nat.add_right_comm, Nat.add_assoc] at hnext

/-- The bytes of two parts stand one behind the other. -/
theorem holdsAt_append {front back : List UInt8} :
    HoldsAt block offset (front ++ back) ↔
      HoldsAt block offset front ∧ HoldsAt block (offset + front.length) back := by
  induction front generalizing offset with
  | nil => simp [holdsAt_nil]
  | cons c front ih =>
    rw [List.cons_append, holdsAt_cons, holdsAt_cons, ih, and_assoc, List.length_cons,
      Nat.add_right_comm, Nat.add_assoc]

/-- Only the bytes there matter. -/
theorem HoldsAt.congr (h : HoldsAt block offset bytes)
    (hblock : ∀ i, offset ≤ i → i < offset + bytes.length → block' i = block i) :
    HoldsAt block' offset bytes := by
  intro k hk
  rw [hblock (offset + k) (Nat.le_add_right ..) (Nat.add_lt_add_left hk _)]
  exact h k hk

/-- A block holds what was written into it. -/
theorem holdsAt_putBytesAt : HoldsAt (putBytesAt block offset bytes) offset bytes := by
  intro k hk
  rw [putBytesAt_inside (Nat.le_add_right ..) (Nat.add_lt_add_left hk _)]
  simp only [Nat.add_sub_cancel_left]

/-- A write beside them does not concern them. -/
theorem HoldsAt.beside {start : Nat} {more : List UInt8} (h : HoldsAt block offset bytes)
    (hbeside : offset + bytes.length ≤ start ∨ start + more.length ≤ offset) :
    HoldsAt (putBytesAt block start more) offset bytes :=
  h.congr fun i hlow hhigh => putBytesAt_outside (by omega)

/-- What a block holds is read. -/
theorem HoldsAt.bytesAt (h : HoldsAt block offset bytes) :
    bytesAt block offset bytes.length = bytes := by
  refine List.ext_getElem (by simp) fun k hk hk' => ?_
  simp only [Library.bytesAt, List.getElem_map, List.getElem_range]
  exact h k hk'

/-- A word that a block holds is read. -/
theorem HoldsAt.u32At {value : UInt32} (h : HoldsAt block offset (le32 value)) :
    u32At block offset = value := by
  have hbyte := fun k (hk : k < 4) => h k hk
  have h0 := hbyte 0 (by decide)
  have h1 := hbyte 1 (by decide)
  have h2 := hbyte 2 (by decide)
  have h3 := hbyte 3 (by decide)
  unfold Library.u32At
  rw [show block offset = _ from h0, h1, h2, h3]
  exact ofLe32_le32 value

end

end Library
