import RgbStd.Lib.Base64
/-!
# Texts in base64 with dashes

| here | there |
| --- | --- |
| `BAID64_ALPHABET` | letters, digits, `_` and `~` (the `baid64` crate, not part of the repository) |
| `undashed`        | `replace` of dashes by nothing |
| `writeChunks`     | the loop over chunks which writes a dash after all but the last (invoice/src/bp.rs:104-110) |
-/
namespace RgbStd

abbrev Text := List Char

def BAID64_ALPHABET : Base64.Alphabet where
  symbols := "ABCDEFGHIJKLMNOPQRSTUVWXYZabcdefghijklmnopqrstuvwxyz0123456789_~".toList
  length_eq := by decide
  nodup := by decide

theorem dash_not_mem_encode (bytes : List UInt8) : '-' ∉ BAID64_ALPHABET.encode bytes :=
  fun h => absurd (Base64.Alphabet.mem_encode h) (by decide)

def undashed (s : Text) : Text := s.filter (· ≠ '-')

/-- The chunks, with dashes between them. -/
def writeChunks : List Text → Text
  | [] => []
  | [chunk] => chunk
  | chunk :: next :: iter => chunk ++ '-' :: writeChunks (next :: iter)

theorem undashed_append (s t : Text) : undashed (s ++ t) = undashed s ++ undashed t := List.filter_append s t

theorem undashed_writeChunks : ∀ chunks : List Text, undashed (writeChunks chunks) = undashed chunks.flatten
  | [] => rfl
  | [chunk] => by rw [writeChunks, List.flatten_singleton]
  | chunk :: next :: iter => by
    rw [writeChunks, List.flatten_cons, undashed_append, undashed_append, ← undashed_writeChunks (next :: iter)]
    rfl

theorem undashed_of_not_mem {s : Text} (h : '-' ∉ s) : undashed s = s := by
  refine List.filter_eq_self.2 fun c hc => ?_
  simp only [decide_eq_true_eq]
  rintro rfl
  exact h hc

theorem flatten_toChunks_go {α : Type} (n : Nat) : ∀ (as : List α) (chunk : Array α) (chunks : Array (List α)),
    (List.toChunks.go n as chunk chunks).flatten = chunks.toList.flatten ++ (chunk.toList ++ as)
  | [], chunk, chunks => by simp [List.toChunks.go]
  | a :: as, chunk, chunks => by
    rw [List.toChunks.go]
    split
    · rw [flatten_toChunks_go n as]
      simp
    · rw [flatten_toChunks_go n as]
      simp

theorem flatten_toChunks {α : Type} (n : Nat) (as : List α) : (as.toChunks n).flatten = as := by
  cases as with
  | nil => rfl
  | cons a as =>
    cases n with
    | zero => simp [List.toChunks]
    | succ n =>
      rw [List.toChunks, flatten_toChunks_go]
      · rfl
      · simp

end RgbStd
