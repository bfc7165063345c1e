import VoxServer.Relay.DeliveryManager

/-! # Blob files

The ciphertext of an upload is a file of its own. Chunks are written at an offset,
in any order, and writing to a file that does not exist creates it.
-/

namespace VoxServer

namespace BlobStorage

/-- The bytes after a write. A gap before the offset is filled with zero bytes, and writing
nothing does not extend the file. -/
def writeAt (offset : ℕ) (data bytes : List Char) : List Char :=
  if data = [] then bytes else
  (bytes ++ List.replicate (offset - bytes.length) '\x00').take offset ++ data ++
    bytes.drop (offset + data.length)

/-- Opens the file, seeks and writes; seeking to a negative offset fails. -/
def write (path : String) (offset : ℤ) (data : String) (s : Server) : Bool × Server :=
  let bytes := (s.blobs path).getD ""
  if offset < 0 then (false, { s with blobs := Function.update s.blobs path (some bytes) }) else
  let bytes := String.ofList (writeAt offset.toNat data.toList bytes.toList)
  (true, { s with blobs := Function.update s.blobs path (some bytes) })

def remove (path : String) (s : Server) : Server :=
  { s with blobs := Function.update s.blobs path none }

theorem length_front (offset : ℕ) (bytes : List Char) :
    ((bytes ++ List.replicate (offset - bytes.length) '\x00').take offset).length = offset := by
  rw [List.length_take, List.length_append, List.length_replicate]
  omega

theorem writeAt_eq_self_iff {offset : ℕ} {data bytes : List Char} :
    writeAt offset data bytes = bytes ↔ data <+: bytes.drop offset := by
  unfold writeAt
  split
  · rename_i hd
    simp [hd]
  rename_i hd
  generalize hx : (bytes ++ List.replicate (offset - bytes.length) '\x00').take offset = x
  have hlen : x.length = offset := hx ▸ length_front offset bytes
  constructor
  · intro h
    refine ⟨bytes.drop (offset + data.length), ?_⟩
    conv_rhs => rw [← h]
    rw [List.append_assoc, List.drop_left' hlen]
  · rintro ⟨t, ht⟩
    have hlt : offset < bytes.length := by
      by_contra hge
      rw [List.drop_eq_nil_of_le (not_lt.mp hge)] at ht
      exact hd (List.append_eq_nil_iff.mp ht).1
    have htake : x = bytes.take offset := by
      rw [← hx, List.take_append_of_le_length hlt.le]
    have hdrop : bytes.drop (offset + data.length) = t := by
      rw [← List.drop_drop, ← ht, List.drop_left]
    rw [htake, hdrop, List.append_assoc, ht, List.take_append_drop]

theorem length_writeAt (offset : ℕ) {data : List Char} (h : data ≠ []) (bytes : List Char) :
    (writeAt offset data bytes).length = max bytes.length (offset + data.length) := by
  simp only [writeAt, if_neg h, List.length_append, List.length_take, List.length_replicate,
    List.length_drop]
  omega

theorem getElem?_writeAt_of_mem {offset i : ℕ} {data bytes : List Char} (hle : offset ≤ i)
    (hlt : i < offset + data.length) : (writeAt offset data bytes)[i]? = data[i - offset]? := by
  have hne : data ≠ [] := by
    rintro rfl
    simp at hlt
    omega
  rw [writeAt, if_neg hne, List.getElem?_append_left, List.getElem?_append_right, length_front]
  · rw [length_front]
    exact hle
  · rw [List.length_append, length_front]
    exact hlt

theorem getElem?_writeAt_of_not_mem {offset i : ℕ} {data bytes : List Char} (hi : i < bytes.length)
    (hout : i < offset ∨ offset + data.length ≤ i) :
    (writeAt offset data bytes)[i]? = bytes[i]? := by
  unfold writeAt
  split
  · rfl
  rcases hout with hlt | hge
  · rw [List.append_assoc, List.getElem?_append_left (by rwa [length_front]),
      List.getElem?_take_of_lt hlt, List.getElem?_append_left hi]
  · rw [List.getElem?_append_right (by rwa [List.length_append, length_front]), List.length_append,
      length_front, List.getElem?_drop]
    congr 1
    omega

theorem write_db (path : String) (offset : ℤ) (data : String) (s : Server) :
    (write path offset data s).2.db = s.db := by
  unfold write
  split <;> rfl

theorem write_blobs_of_ne {path other : String} (h : other ≠ path) (offset : ℤ) (data : String)
    (s : Server) : (write path offset data s).2.blobs other = s.blobs other := by
  unfold write
  split <;> exact Function.update_of_ne h _ _

theorem write_blobs_self (path : String) (offset : ℤ) (data : String) (s : Server) :
    (write path offset data s).2.blobs path = some (if offset < 0 then (s.blobs path).getD "" else
      String.ofList (writeAt offset.toNat data.toList ((s.blobs path).getD "").toList)) := by
  unfold write
  split <;> simp

theorem isSome_write_blobs (path : String) (offset : ℤ) (data : String) (s : Server) :
    ((write path offset data s).2.blobs path).isSome := by
  rw [write_blobs_self, Option.isSome_some]

/-- Writing leaves a file as it is if the file exists and the seek fails or the data already
stands there. -/
theorem write_blobs_eq_iff {path : String} {offset : ℤ} {data : String} {s : Server} :
    (write path offset data s).2.blobs path = s.blobs path ↔ ∃ bytes, s.blobs path = some bytes ∧
      (offset < 0 ∨ data.toList <+: bytes.toList.drop offset.toNat) := by
  unfold write
  split
  · rename_i ho
    cases hb : s.blobs path with
    | none => simp
    | some bytes => simp [ho]
  · rename_i ho
    cases hb : s.blobs path with
    | none => simp
    | some bytes =>
      simp only [Option.getD_some, Function.update_self, Option.some.injEq, exists_eq_left', ho,
        false_or]
      rw [← writeAt_eq_self_iff, ← String.toList_inj, String.toList_ofList]

end BlobStorage

/-- What is done with a blob file, each time as one step. -/
inductive BlobCall
  | write (path : String) (offset : ℤ) (data : String)
  | fileExists (path : String)
  | read (path : String)
  | remove (path : String)
  deriving DecidableEq, Repr

namespace BlobCall

@[reducible] def Reply : BlobCall → Type
  | write .. => Bool
  | fileExists _ => Bool
  | read _ => Option String
  | remove _ => Unit

def exec : (c : BlobCall) → Server → c.Reply × Server
  | write p o data, s => BlobStorage.write p o data s
  | fileExists p, s => ((s.blobs p).isSome, s)
  | read p, s => (s.blobs p, s)
  | remove p, s => ((), BlobStorage.remove p s)

theorem exec_frame (c : BlobCall) (s : Server) : ∃ bs, (c.exec s).2 = { s with blobs := bs } := by
  cases c with
  | write p o data =>
    simp only [exec, BlobStorage.write]
    split
    · exact ⟨_, rfl⟩
    · exact ⟨_, rfl⟩
  | fileExists p => exact ⟨s.blobs, rfl⟩
  | read p => exact ⟨s.blobs, rfl⟩
  | remove p => exact ⟨_, rfl⟩

end BlobCall

end VoxServer
