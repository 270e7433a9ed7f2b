import DatabaseEngine.Spec.Frames
import Mathlib.Algebra.Order.BigOperators.Group.List
import Mathlib.Data.Nat.Digits.Lemmas

/-!
# `DatabaseEngine.Proofs.Wire.Rows`: what a client gets for a row

* `sendMessage_stream`: however the buffer is flushed and the socket takes its bytes, a message is
  sent in one piece behind what was sent before.
* `rowMessage_eq`: a row that fits its buffer is written in full.
* `decodeDataRow_frame`, `decodeColumns_length`: it is read back; what is read has its length.
* `dataRow_delivered_iff`: exactly the rows that fit are delivered.
-/

set_option autoImplicit false

namespace DatabaseEngine

open Library

/-! ### The stream -/

section
variable (socket : Channel UInt8)

/-- Flushing changes nothing of what was sent in all. -/
theorem flushWire_stream (w : Wire) : (flushWire socket w).stream = w.stream := by
  show w.sent ++ socket.drain w.out.length w.out ++ [] = w.sent ++ w.out
  rw [socket.drain_eq (Nat.le_refl _), List.append_nil]

/-- Bytes go to the end of what is sent. -/
theorem putBytes_stream (bytes : List UInt8) (w : Wire) :
    (putBytes socket bytes w).stream = w.stream ++ bytes := by
  have happend : ∀ w : Wire,
      ({ w with out := w.out ++ bytes } : Wire).stream = w.stream ++ bytes := fun w =>
    (List.append_assoc ..).symm
  unfold putBytes
  split
  · have hflushed : (flushWire socket w).sent = w.stream := by
      rw [← flushWire_stream socket w]
      exact (List.append_nil _).symm
    show (flushWire socket w).sent ++ socket.drain bytes.length bytes ++ [] = _
    rw [socket.drain_eq (Nat.le_refl _), List.append_nil, hflushed]
  · dsimp only
    rw [happend]
    split
    · rw [flushWire_stream]
    · rfl

/-- A message on the wire. -/
def frame (type : UInt8) (message : List UInt8) : List UInt8 :=
  type :: (be32 (message.length + 4) ++ message)

/-- A message is sent as one frame. -/
theorem sendMessage_stream (type : UInt8) (message : List UInt8) (w : Wire) :
    (sendMessage socket type message w).stream = w.stream ++ frame type message := by
  unfold sendMessage putI32
  rw [putBytes_stream, putBytes_stream, putBytes_stream, List.append_assoc, List.append_assoc]
  rfl

end

/-! ### Numbers -/

/-- An integer is four bytes. -/
theorem be32_length (value : Int) : (be32 value).length = 4 := rfl

/-- Four bytes put together again. -/
theorem be_bytes {n : Nat} (h : n < 4294967296) :
    (((UInt8.ofNat (n / 16777216)).toNat * 256 + (UInt8.ofNat (n / 65536)).toNat) * 256 +
      (UInt8.ofNat (n / 256)).toNat) * 256 + (UInt8.ofNat n).toNat = n := by
  simp only [UInt8.toNat_ofNat']
  omega

/-- An integer big end first is read back. -/
theorem bodyI32_be32 {value : Int} (hlow : -2147483648 ≤ value) (hhigh : value < 2147483648)
    (rest : List UInt8) : bodyI32 (be32 value ++ rest) = some (value, rest) := by
  obtain ⟨n, hn⟩ : ∃ n, n = (value % 2 ^ 32).toNat := ⟨_, rfl⟩
  have hlt : n < 4294967296 := by omega
  have hbytes : be32 value = [UInt8.ofNat (n / 16777216), UInt8.ofNat (n / 65536),
      UInt8.ofNat (n / 256), UInt8.ofNat n] := by
    rw [hn]
    rfl
  have hint : (UInt32.ofNat n).toInt32.toInt = value := by
    show (UInt32.ofNat n).toBitVec.toInt = value
    rw [BitVec.toInt_eq_toNat_bmod]
    show ((UInt32.ofNat n).toNat : Int).bmod 4294967296 = value
    rw [UInt32.toNat_ofNat_of_lt' hlt, Int.bmod_def]
    omega
  rw [hbytes]
  show some ((UInt32.ofNat _).toInt32.toInt, rest) = _
  rw [be_bytes hlt, hint]

/-- A short one is read back. -/
theorem bodyI16_be16 {value : Nat} (h : value < 65536) (rest : List UInt8) :
    bodyI16 (be16 value ++ rest) = some ((value : Int), rest) := by
  show some (((UInt8.ofNat (value / 256)).toNat * 256 + (UInt8.ofNat value).toNat : Int), rest) = _
  have hsame : (UInt8.ofNat (value / 256)).toNat * 256 + (UInt8.ofNat value).toNat = value := by
    simp only [UInt8.toNat_ofNat']
    omega
  exact congrArg (fun n : Int => some (n, rest)) (by exact_mod_cast hsame)

/-! ### Dates -/

/-! ### Columns -/

/-- A column as it is written when it fits. -/
def columnBytes (value : Value) : List UInt8 :=
  match shown value with
  | none => be32 (-1)
  | some text => be32 text.length ++ text

/-- A column is its length and its text. -/
theorem columnBytes_length (value : Value) :
    (columnBytes value).length = 4 + ((shown value).getD []).length := by
  unfold columnBytes
  cases shown value with
  | none => rfl
  | some text => rw [List.length_append, be32_length]; rfl

/-- A column is read back. -/
theorem decodeColumn_columnBytes {value : Value}
    (h : ((shown value).getD []).length < 2147483648) (rest : List UInt8) :
    decodeColumn (columnBytes value ++ rest) = some (shown value, rest) := by
  unfold columnBytes decodeColumn
  cases hshown : shown value with
  | none =>
    dsimp only
    rw [bodyI32_be32 (by omega) (by omega)]
    rfl
  | some text =>
    rw [hshown] at h
    have hlength : text.length < 2147483648 := h
    dsimp only
    rw [List.append_assoc, bodyI32_be32 (by omega) (by omega)]
    show (if (text.length : Int) < 0 then some (none, text ++ rest)
      else if (text ++ rest).length < (text.length : Int).toNat then none
      else some (some ((text ++ rest).take (text.length : Int).toNat),
        (text ++ rest).drop (text.length : Int).toNat)) = _
    rw [if_neg (by omega), Int.toNat_natCast, if_neg (by simp), List.take_left, List.drop_left]

/-- So are all of them. -/
theorem decodeColumns_columnBytes {row : Row}
    (h : ∀ value ∈ row, ((shown value).getD []).length < 2147483648) :
    decodeColumns row.length (row.flatMap columnBytes) = some (row.map shown, []) := by
  induction row with
  | nil => rfl
  | cons value rest ih =>
    rw [List.length_cons, List.flatMap_cons, decodeColumns,
      decodeColumn_columnBytes (h value (List.mem_cons_self ..))]
    show (decodeColumns rest.length (rest.flatMap columnBytes)).bind _ = _
    rw [ih fun v hv => h v (List.mem_cons_of_mem _ hv)]
    rfl

/-- What was read has the length of what it was read from. -/
theorem decodeColumn_length {body rest : List UInt8} {column : Option (List UInt8)}
    (h : decodeColumn body = some (column, rest)) :
    body.length = 4 + (column.getD []).length + rest.length := by
  unfold decodeColumn at h
  cases hread : bodyI32 body with
  | none =>
    rw [hread] at h
    exact absurd h (by simp)
  | some read =>
    obtain ⟨length, rest'⟩ := read
    have hbody : body.length = 4 + rest'.length := by
      unfold bodyI32 at hread
      split at hread
      · obtain ⟨-, rfl⟩ := Prod.mk.inj (Option.some.inj hread)
        rw [List.length_cons, List.length_cons, List.length_cons, List.length_cons]
        omega
      · exact absurd hread (by simp)
    rw [hread] at h
    have h : (if length < 0 then some (none, rest')
        else if rest'.length < length.toNat then none
        else some (some (rest'.take length.toNat), rest'.drop length.toNat)) = some (column, rest) := h
    split at h
    · obtain ⟨rfl, rfl⟩ := Prod.mk.inj (Option.some.inj h)
      exact hbody
    · split at h
      · exact absurd h (by simp)
      · obtain ⟨rfl, rfl⟩ := Prod.mk.inj (Option.some.inj h)
        rw [hbody, Option.getD_some, List.length_take, List.length_drop]
        omega

/-- What is read uses up as many bytes as it says. -/
theorem decodeColumns_length {count : Nat} {body rest : List UInt8}
    {columns : List (Option (List UInt8))} (h : decodeColumns count body = some (columns, rest)) :
    body.length = (columns.map fun column => 4 + (column.getD []).length).sum + rest.length := by
  induction count generalizing body columns with
  | zero =>
    obtain ⟨rfl, rfl⟩ := Prod.mk.inj (Option.some.inj h)
    simp
  | succ count ih =>
    unfold decodeColumns at h
    simp only [Option.bind_eq_bind, Option.bind_eq_some_iff] at h
    obtain ⟨⟨column, body'⟩, hcolumn, ⟨more, rest'⟩, hmore, hcolumns⟩ := h
    obtain ⟨rfl, rfl⟩ := Prod.mk.inj (Option.some.inj hcolumns)
    rw [decodeColumn_length hcolumn, ih hmore, List.map_cons, List.sum_cons]
    exact (Nat.add_assoc ..).symm

/-! ### The message -/

/-- Bytes that fit are added. -/
theorem addBytes_eq {bytes message : List UInt8} (h : message.length + bytes.length ≤ WIRE_BUFFER) :
    addBytes bytes message = message ++ bytes := if_neg (Nat.not_lt.mpr h)

/-- The buffer is never left. -/
theorem addBytes_le {bytes message : List UInt8} (h : message.length ≤ WIRE_BUFFER) :
    (addBytes bytes message).length ≤ WIRE_BUFFER := by
  unfold addBytes
  split
  · exact h
  · rename_i hfits
    rw [List.length_append]
    exact Nat.not_lt.mp hfits

/-- A column that fits is added. -/
theorem addColumn_eq {message : List UInt8} {value : Value}
    (h : message.length + (columnBytes value).length ≤ WIRE_BUFFER) :
    addColumn message value = message ++ columnBytes value := by
  have hsome : ∀ text : List UInt8, shown value = some text →
      addBytes text (addI32 text.length message) = message ++ columnBytes value := by
    intro text hshown
    have hcolumn : columnBytes value = be32 text.length ++ text := by
      unfold columnBytes
      rw [hshown]
    rw [hcolumn, List.length_append, be32_length] at h
    have hlength : addI32 text.length message = message ++ be32 text.length :=
      addBytes_eq (by rw [be32_length]; omega)
    rw [hcolumn, hlength, addBytes_eq (by rw [List.length_append, be32_length]; omega),
      List.append_assoc]
  unfold addColumn
  by_cases hnull : value.isNull = true
  · rw [if_pos hnull]
    have hcolumn : columnBytes value = be32 (-1) := by
      unfold columnBytes shown
      rw [if_pos hnull]
    rw [hcolumn] at h ⊢
    exact addBytes_eq h
  · rw [if_neg hnull]
    split
    · rename_i htype
      refine hsome value.text ?_
      unfold shown
      rw [if_neg hnull, htype]
    · rename_i htype
      refine hsome (renderScalar value) ?_
      unfold shown
      rw [if_neg hnull]
      split
      · rename_i htext
        exact absurd htext htype
      · rfl

/-- The buffer is never left. -/
theorem addColumn_le {message : List UInt8} (value : Value) (h : message.length ≤ WIRE_BUFFER) :
    (addColumn message value).length ≤ WIRE_BUFFER := by
  unfold addColumn
  split
  · exact addBytes_le h
  · split
    · exact addBytes_le (addBytes_le h)
    · exact addBytes_le (addBytes_le h)

/-- Columns that fit together are all added. -/
theorem foldl_addColumn_eq {row : Row} {message : List UInt8}
    (h : message.length + (row.map fun value => (columnBytes value).length).sum ≤ WIRE_BUFFER) :
    row.foldl addColumn message = message ++ row.flatMap columnBytes := by
  induction row generalizing message with
  | nil => simp
  | cons value rest ih =>
    rw [List.map_cons, List.sum_cons] at h
    rw [List.foldl_cons, addColumn_eq (by omega), ih (by rw [List.length_append]; omega),
      List.flatMap_cons, List.append_assoc]

/-- The message of a row never leaves the buffer. -/
theorem rowMessage_le (row : Row) : (rowMessage row).length ≤ WIRE_BUFFER := by
  have hfold : ∀ (row : Row) (message : List UInt8), message.length ≤ WIRE_BUFFER →
      (row.foldl addColumn message).length ≤ WIRE_BUFFER := by
    intro row
    induction row with
    | nil => exact fun message h => h
    | cons value rest ih => exact fun message h => ih _ (addColumn_le value h)
  exact hfold row _ (addBytes_le (Nat.zero_le _))

/-- A row is its count of columns and the columns. -/
theorem rowSize_eq (row : Row) :
    rowSize row = 2 + (row.map fun value => (columnBytes value).length).sum := by
  unfold rowSize
  congr 2
  exact List.map_congr_left fun value _ => (columnBytes_length value).symm

/-- A row that fits is written in full. -/
theorem rowMessage_eq {row : Row} (h : rowSize row ≤ WIRE_BUFFER) :
    rowMessage row = be16 row.length ++ row.flatMap columnBytes := by
  rw [rowSize_eq] at h
  have hstart : addI16 row.length [] = be16 row.length :=
    addBytes_eq (show 0 + 2 ≤ WIRE_BUFFER by decide)
  unfold rowMessage
  rw [hstart]
  exact foldl_addColumn_eq h

/-! ### Rows -/

/-- The frame of a row that fits is read back as the row. -/
theorem decodeDataRow_frame {row : Row} (h : rowSize row ≤ WIRE_BUFFER) :
    decodeDataRow (frame 68 (rowMessage row)) = some (row.map shown) := by
  have hle : (rowMessage row).length ≤ 65536 := rowMessage_le row
  have hsum : 2 + (row.map fun value => 4 + ((shown value).getD []).length).sum ≤ 65536 := h
  have hcolumn : ∀ value ∈ row, 4 + ((shown value).getD []).length ≤ 65534 := fun value hvalue => by
    have hone := List.le_sum_of_mem
      (List.mem_map_of_mem (f := fun value => 4 + ((shown value).getD []).length) hvalue)
    omega
  have hlength : row.length ≤ 65534 := by
    have hfour := List.card_nsmul_le_sum
      (row.map fun value => 4 + ((shown value).getD []).length) 4 (fun n hn => by
        obtain ⟨value, -, rfl⟩ := List.mem_map.mp hn
        exact Nat.le_add_right _ _)
    rw [List.length_map, Nat.nsmul_eq_mul] at hfour
    omega
  unfold frame decodeDataRow
  dsimp only
  rw [bodyI32_be32 (by omega) (by omega)]
  simp only [Option.bind_eq_bind, Option.bind_some]
  rw [rowMessage_eq h, bodyI16_be16 (by omega)]
  simp only [Option.bind_some, Int.toNat_natCast]
  rw [decodeColumns_columnBytes fun value hvalue => by
    have := hcolumn value hvalue
    omega]
  rfl

/-- A row that is read back fits the buffer. -/
theorem rowSize_le {row : Row} {message : List UInt8} (hmessage : message.length ≤ WIRE_BUFFER)
    (h : decodeDataRow (frame 68 message) = some (row.map shown)) : rowSize row ≤ WIRE_BUFFER := by
  have hle : message.length ≤ 65536 := hmessage
  unfold frame decodeDataRow at h
  simp only [Option.bind_eq_bind, Option.bind_eq_some_iff] at h
  obtain ⟨⟨length, body⟩, hlength, ⟨count, rest⟩, hcount, ⟨columns, behind⟩, hcolumns, hwhole⟩ := h
  rw [bodyI32_be32 (by omega) (by omega)] at hlength
  obtain ⟨rfl, rfl⟩ := Prod.mk.inj (Option.some.inj hlength)
  have hrest : message.length = 2 + rest.length := by
    unfold bodyI16 at hcount
    split at hcount
    · rename_i hmessage
      obtain ⟨-, rfl⟩ := Prod.mk.inj (Option.some.inj hcount)
      rw [show message = _ from hmessage, List.length_cons, List.length_cons]
      omega
    · exact absurd hcount (by simp)
  split at hwhole
  · rename_i hframed
    obtain rfl : columns = row.map shown := Option.some.inj hwhole
    have hbody := decodeColumns_length hcolumns
    rw [show behind = [] from hframed.2.2, List.map_map] at hbody
    show 2 + (row.map fun value => 4 + ((shown value).getD []).length).sum ≤ 65536
    have hsame : (row.map fun value => 4 + ((shown value).getD []).length).sum = rest.length :=
      hbody.symm
    omega
  · exact absurd hwhole (by simp)

/-- What is read back as the row was in the buffer. -/
theorem delivered_fits {socket : Channel UInt8} {row : Row} {w : Wire}
    (h : ∃ bytes, (sendDataRow socket row w).2.stream = w.stream ++ bytes ∧
      Delivers row (sendDataRow socket row w).1 bytes) : rowSize row ≤ WIRE_BUFFER := by
  obtain ⟨bytes, hbytes, hdelivers⟩ := h
  have hstream : (sendDataRow socket row w).2.stream = w.stream ++ frame 68 (rowMessage row) :=
    sendMessage_stream socket 68 (rowMessage row) w
  obtain rfl : frame 68 (rowMessage row) = bytes :=
    List.append_cancel_left (hstream.symm.trans hbytes)
  exact rowSize_le (rowMessage_le row) hdelivers

/-- Exactly the rows that fit the message buffer are delivered; the others are neither delivered
nor reported. -/
theorem dataRow_delivered_iff (socket : Channel UInt8) (row : Row) (w : Wire) :
    (∃ bytes, (sendDataRow socket row w).2.stream = w.stream ++ bytes ∧
      Delivers row (sendDataRow socket row w).1 bytes) ↔ rowSize row ≤ WIRE_BUFFER := by
  constructor
  · exact delivered_fits
  · intro hfits
    exact ⟨_, sendMessage_stream socket 68 (rowMessage row) w, decodeDataRow_frame hfits⟩

/-- The size of a row of one text repeated. -/
theorem rowSize_replicate (n : Nat) (text : List UInt8) :
    rowSize (List.replicate n (setText text)) = 2 + n * (4 + text.length) := by
  unfold rowSize
  rw [List.map_replicate, List.sum_replicate]
  rfl

/-- A socket that takes everything at once. -/
def greedy : Channel UInt8 where
  take := List.length
  positive _ h := List.length_pos_of_ne_nil h

/-- A text of 8000 bytes, selected nine times. -/
def wideRow : Row := List.replicate 9 (setText (List.replicate 8000 120))

/-- It is neither delivered nor reported. -/
theorem dataRow_truncated :
    ¬ ∃ bytes, (sendDataRow greedy wideRow { sent := [], out := [] }).2.stream =
        ({ sent := [], out := [] } : Wire).stream ++ bytes ∧
      Delivers wideRow (sendDataRow greedy wideRow { sent := [], out := [] }).1 bytes := by
  intro h
  have hfits := delivered_fits h
  unfold wideRow at hfits
  rw [rowSize_replicate, List.length_replicate] at hfits
  exact absurd hfits (by decide)

end DatabaseEngine
